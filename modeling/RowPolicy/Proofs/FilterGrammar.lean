import RowPolicy.Proofs.ConditionMap
import RowPolicy.Proofs.TypedConditions

/-!
The grammar of filters. A value writes a filter, part by part as it stands, and is plain when its
objects have no keys beside those of the filter. Main statement: a model reads a value exactly when
the value is plain and writes a filter that nests no deeper than it may and has only conditions
that the model accepts; what is read is the canonical form of this filter with its conditions typed.
A filter that is written out is plain and writes itself.
-/
namespace RowPolicy

/-- What a model makes of a filter: its canonical form over typed conditions. -/
def Model.normalize (m : Model) (f : Filter) : Filter := (f.map m.typed).canonicalize

/-- A filter that a model accepts as it stands, with a limit on its depth. -/
structure Filter.Acceptable (f : Filter) (m : Model) (depth : Nat) : Prop where
  shallow : f.depth ≤ depth
  accepted : ∀ c ∈ f.conditions, m.accepts c = true

namespace Filter

mutual
/-- The filter that a value writes, with every part where it stands. Keys that the filter does not
ask for are passed over. -/
def written? : Json → Option Filter
  | .obj members =>
    match writtenParts? "and" members, writtenParts? "or" members, writtenPart? "not" members with
    | some parts, _, _ => parts.map all
    | none, some parts, _ => parts.map any
    | none, none, some part => part.map not
    | none, none, none => (Condition.ofRaw? members).map leaf
  | _ => none

def writtenItems? : List Json → Option (List Filter)
  | [] => some []
  | item :: items => do return (← written? item) :: (← writtenItems? items)

/-- The filters under a key, if the key is there. -/
def writtenParts? (key : String) : List (String × Json) → Option (Option (List Filter))
  | [] => none
  | (k, .arr items) :: members =>
    if k = key then some (writtenItems? items) else writtenParts? key members
  | (k, _) :: members => if k = key then some none else writtenParts? key members

def writtenPart? (key : String) : List (String × Json) → Option (Option Filter)
  | [] => none
  | (k, value) :: members => if k = key then some (written? value) else writtenPart? key members
end

end Filter

def Filter.plainKeys (keys : List String) : Bool :=
  keys = ["and"] || keys = ["or"] || keys = ["not"] || Condition.plainKeys keys

def Filter.combinators : List String := ["and", "or", "not"]

namespace Json

mutual
/-- The objects of a filter have no keys but those of a filter. -/
def isPlain : Json → Bool
  | obj members => Filter.plainKeys (Table.keys members) && plainMembers members
  | arr items => plainItems items
  | _ => true

def plainItems : List Json → Bool
  | [] => true
  | item :: items => item.isPlain && plainItems items

def plainMembers : List (String × Json) → Bool
  | [] => true
  | (key, value) :: members =>
    (!Filter.combinators.contains key || value.isPlain) && plainMembers members
end

end Json

section Written

variable {members : List (String × Json)} {key : String} {body : Json}

namespace Filter

theorem writtenItems?_eq_mapM (items : List Json) : writtenItems? items = items.mapM written? := by
  induction items with
  | nil => rfl
  | cons item items ih => rw [writtenItems?, ih, List.mapM_cons]

def writtenList? (body : Json) : Option (List Filter) := body.arr?.bind (·.mapM written?)

theorem writtenParts?_eq (key : String) (members : List (String × Json)) :
    writtenParts? key members = (Table.get? members key).map writtenList? := by
  induction members with
  | nil => rfl
  | cons p members ih =>
    obtain ⟨k, value⟩ := p
    cases value <;> by_cases h : k = key <;>
      simp [writtenParts?, writtenList?, Json.arr?, writtenItems?_eq_mapM, h, ih]

theorem writtenPart?_eq (key : String) (members : List (String × Json)) :
    writtenPart? key members = (Table.get? members key).map written? := by
  induction members with
  | nil => rfl
  | cons p members ih =>
    obtain ⟨k, value⟩ := p
    by_cases h : k = key <;> simp [writtenPart?, h, ih]

theorem written?_obj (members : List (String × Json)) : written? (.obj members) =
    match Table.get? members "and", Table.get? members "or", Table.get? members "not" with
    | some body, _, _ => (writtenList? body).map all
    | none, some body, _ => (writtenList? body).map any
    | none, none, some body => (written? body).map not
    | none, none, none => (Condition.ofRaw? members).map leaf := by
  rw [written?, writtenParts?_eq, writtenParts?_eq, writtenPart?_eq]
  cases Table.get? members "and" <;> cases Table.get? members "or" <;>
    cases Table.get? members "not" <;> rfl

end Filter

namespace Json

theorem plainItems_iff {items : List Json} :
    plainItems items = true ↔ ∀ item ∈ items, item.isPlain = true := by
  induction items with
  | nil => simp [plainItems]
  | cons item items ih => simp [plainItems, ih]

theorem plainMembers_iff : plainMembers members = true ↔
    ∀ p ∈ members, p.1 ∈ Filter.combinators → p.2.isPlain = true := by
  induction members with
  | nil => simp [plainMembers]
  | cons p members ih =>
    rw [plainMembers, Bool.and_eq_true, ih, List.forall_mem_cons]
    simp [or_iff_not_imp_left]

theorem length_of_plainKeys {keys : List String} (h : Filter.plainKeys keys = true)
    (hmem : key ∈ keys) (hkey : key ∈ Filter.combinators) : keys.length = 1 := by
  simp only [Filter.plainKeys, Bool.or_eq_true, decide_eq_true_eq] at h
  rcases h with ((rfl | rfl) | rfl) | h
  · rfl
  · rfl
  · rfl
  · simp only [Condition.plainKeys, Bool.and_eq_true, List.all_eq_true] at h
    have hcondition := h.1 key hmem
    simp only [Filter.combinators, List.mem_cons, List.not_mem_nil, or_false] at hkey
    rcases hkey with rfl | rfl | rfl <;> simp at hcondition

theorem isPlain_obj_of_combinator (hkey : key ∈ Filter.combinators)
    (h : Table.get? members key = some body) :
    (obj members).isPlain = true ↔ members.length = 1 ∧ body.isPlain = true := by
  rw [isPlain, Bool.and_eq_true, plainMembers_iff]
  constructor
  · rintro ⟨hkeys, hmembers⟩
    have hmem := Table.mem_of_get?_eq_some h
    have hlength := length_of_plainKeys hkeys (List.mem_map_of_mem hmem) hkey
    exact ⟨by simpa [Table.keys] using hlength, hmembers _ hmem hkey⟩
  · rintro ⟨hlength, hbody⟩
    obtain rfl := Table.eq_singleton_of_get? h hlength
    refine ⟨?_, by simpa using fun _ => hbody⟩
    simp only [Filter.combinators, List.mem_cons, List.not_mem_nil, or_false] at hkey
    rcases hkey with rfl | rfl | rfl <;> rfl

theorem isPlain_singleton (hkey : key ∈ Filter.combinators) :
    (obj [(key, body)]).isPlain = true ↔ body.isPlain = true := by
  have hbody : Table.get? [(key, body)] key = some body := by simp
  simp [isPlain_obj_of_combinator hkey hbody]

theorem isPlain_obj_of_condition (h : ∀ key ∈ Filter.combinators, Table.get? members key = none) :
    (obj members).isPlain = true ↔ Condition.plainKeys (Table.keys members) = true := by
  have hnone : ∀ key ∈ Filter.combinators, key ∉ Table.keys members := fun key hkey =>
    Table.get?_eq_none_iff.mp (h key hkey)
  have hmembers : plainMembers members = true := plainMembers_iff.mpr fun p hp hkey =>
    absurd (List.mem_map_of_mem hp) (hnone p.1 hkey)
  have hne (key : String) (hkey : key ∈ Filter.combinators) : Table.keys members ≠ [key] :=
    fun he => hnone key hkey (by simp [he])
  have hand := hne "and" (by decide)
  have hor := hne "or" (by decide)
  have hnot := hne "not" (by decide)
  rw [isPlain, hmembers, Bool.and_true]
  simp [Filter.plainKeys, hand, hor, hnot]

end Json

namespace Filter

variable {m : Model} {limit depth : Nat} {f : Filter}

theorem canonicalize_combine (k : Connective) (parts : List Filter) :
    (k.combine parts).canonicalize = k.merge (parts.map canonicalize) := by
  cases k with
  | all => rw [Connective.combine, canonicalize, conj_eq_merge, canonicalizeParts_eq_map]
  | any => rw [Connective.combine, canonicalize, disj_eq_merge, canonicalizeParts_eq_map]

theorem normalize_combine (m : Model) (k : Connective) (parts : List Filter) :
    m.normalize (k.combine parts) = k.merge (parts.map m.normalize) := by
  rw [Model.normalize, Connective.map_combine, canonicalize_combine, List.map_map]
  rfl

theorem acceptable_combine_iff {k : Connective} {parts : List Filter} :
    (k.combine parts).Acceptable m (depth + 1) ↔ ∀ p ∈ parts, p.Acceptable m depth := by
  constructor
  · rintro ⟨hdepth, haccepted⟩ p hp
    rw [Connective.depth_combine, Nat.succ_le_succ_iff, partsDepth_le_iff] at hdepth
    exact ⟨hdepth p hp, fun c hc =>
      haccepted c (Connective.mem_conditions_combine.mpr ⟨p, hp, hc⟩)⟩
  · intro h
    refine ⟨?_, fun c hc => ?_⟩
    · rw [Connective.depth_combine, Nat.succ_le_succ_iff, partsDepth_le_iff]
      exact fun p hp => (h p hp).shallow
    · obtain ⟨p, hp, hc⟩ := Connective.mem_conditions_combine.mp hc
      exact (h p hp).accepted c hc

theorem acceptable_not_iff {part : Filter} :
    (not part).Acceptable m (depth + 1) ↔ part.Acceptable m depth :=
  ⟨fun h => ⟨Nat.le_of_succ_le_succ h.shallow, h.accepted⟩,
    fun h => ⟨Nat.succ_le_succ h.shallow, h.accepted⟩⟩

theorem acceptable_leaf_iff {c : Condition} :
    (leaf c).Acceptable m (depth + 1) ↔ m.accepts c = true :=
  ⟨fun h => h.accepted c (by simp [conditions]),
    fun h => ⟨Nat.succ_le_succ (Nat.zero_le depth), by simpa [conditions] using h⟩⟩

/-- Canonical form and the types of the conditions have nothing to do with each other. -/
theorem normalize_canonicalize (m : Model) (f : Filter) :
    m.normalize f.canonicalize = m.normalize f := by
  rw [Model.normalize, map_canonicalize, canonicalize_eq_self (isCanonical_canonicalize _)]
  rfl

theorem Acceptable.canonicalize (h : f.Acceptable m depth) : f.canonicalize.Acceptable m depth where
  shallow := Nat.le_trans (depth_canonicalize_le f) h.shallow
  accepted c hc := h.accepted c (mem_conditions_of_canonicalize hc)

end Filter

variable {m : Model} {limit depth : Nat} {f : Filter}

theorem readBody_eq_ok_iff (k : Filter.Connective)
    (ih : ∀ raw f, readFilter m limit depth raw = .ok f ↔ raw.isPlain = true ∧
      ∃ t, Filter.written? raw = some t ∧ t.Acceptable m depth ∧ m.normalize t = f) :
    k.merge <$> readAlone key members (readParts (readFilter m limit depth) body) = .ok f ↔
      (members.length = 1 ∧ body.isPlain = true) ∧
        ∃ t, (Filter.writtenList? body).map k.combine = some t ∧ t.Acceptable m (depth + 1) ∧
          m.normalize t = f := by
  simp only [Result.map_eq_ok_iff, readAlone_eq_ok_iff]
  cases body with
  | arr items =>
    simp only [readParts, readItems_eq_ok_iff ih, Filter.writtenList?, Json.arr?, Json.isPlain,
      Json.plainItems_iff, Option.bind_some, Option.map_eq_some_iff]
    constructor
    · rintro ⟨parts, ⟨hlength, hplain, ts, hts, hacceptable, rfl⟩, rfl⟩
      exact ⟨⟨hlength, hplain⟩, _, ⟨ts, hts, rfl⟩, Filter.acceptable_combine_iff.mpr hacceptable,
        Filter.normalize_combine m k ts⟩
    · rintro ⟨⟨hlength, hplain⟩, _, ⟨ts, hts, rfl⟩, hacceptable, rfl⟩
      exact ⟨_, ⟨hlength, hplain, ts, hts, Filter.acceptable_combine_iff.mp hacceptable, rfl⟩,
        (Filter.normalize_combine m k ts).symm⟩
  | _ => simp [readParts, Filter.writtenList?, Json.arr?]

theorem readNegation_eq_ok_iff
    (ih : ∀ raw f, readFilter m limit depth raw = .ok f ↔ raw.isPlain = true ∧
      ∃ t, Filter.written? raw = some t ∧ t.Acceptable m depth ∧ m.normalize t = f) :
    Filter.negate <$> readAlone key members (readFilter m limit depth body) = .ok f ↔
      (members.length = 1 ∧ body.isPlain = true) ∧
        ∃ t, (Filter.written? body).map .not = some t ∧ t.Acceptable m (depth + 1) ∧
          m.normalize t = f := by
  simp only [Result.map_eq_ok_iff, readAlone_eq_ok_iff, ih, Option.map_eq_some_iff]
  constructor
  · rintro ⟨_, ⟨hlength, hplain, t, ht, hacceptable, rfl⟩, rfl⟩
    exact ⟨⟨hlength, hplain⟩, _, ⟨t, ht, rfl⟩, Filter.acceptable_not_iff.mpr hacceptable, rfl⟩
  · rintro ⟨⟨hlength, hplain⟩, _, ⟨t, ht, rfl⟩, hacceptable, rfl⟩
    exact ⟨_, ⟨hlength, hplain, t, ht, Filter.acceptable_not_iff.mp hacceptable, rfl⟩, rfl⟩

theorem readLeaf_eq_ok_iff : Filter.leaf <$> readCondition m members = .ok f ↔
    Condition.plainKeys (Table.keys members) = true ∧
      ∃ t, (Condition.ofRaw? members).map .leaf = some t ∧ t.Acceptable m (depth + 1) ∧
        m.normalize t = f := by
  simp only [Result.map_eq_ok_iff, readCondition_eq_ok_iff, Option.map_eq_some_iff]
  constructor
  · rintro ⟨_, ⟨hkeys, c, hc, haccepts, rfl⟩, rfl⟩
    exact ⟨hkeys, _, ⟨c, hc, rfl⟩, Filter.acceptable_leaf_iff.mpr haccepts, rfl⟩
  · rintro ⟨hkeys, _, ⟨c, hc, rfl⟩, hacceptable, rfl⟩
    exact ⟨_, ⟨hkeys, c, hc, Filter.acceptable_leaf_iff.mp hacceptable, rfl⟩, rfl⟩

/-- A value is read as a filter exactly when it is plain and writes one that the model accepts. -/
theorem readFilter_eq_ok_iff {raw : Json} : readFilter m limit depth raw = .ok f ↔
    raw.isPlain = true ∧
      ∃ t, Filter.written? raw = some t ∧ t.Acceptable m depth ∧ m.normalize t = f := by
  induction depth generalizing raw f with
  | zero =>
    constructor
    · intro h
      cases raw <;> cases h
    · rintro ⟨-, t, -, hacceptable, -⟩
      exact absurd hacceptable.shallow (Nat.not_le_of_gt t.depth_pos)
  | succ depth ih =>
    cases raw with
    | obj members =>
      -- The cases are those of the reader: the first combinator found, else a condition.
      rw [Filter.written?_obj, readFilter]
      cases hand : Table.get? members "and" with
      | some body =>
        rw [Json.isPlain_obj_of_combinator (by decide) hand, funext Filter.conj_eq_merge]
        exact readBody_eq_ok_iff .all fun _ _ => ih
      | none =>
        cases hor : Table.get? members "or" with
        | some body =>
          rw [Json.isPlain_obj_of_combinator (by decide) hor, funext Filter.disj_eq_merge]
          exact readBody_eq_ok_iff .any fun _ _ => ih
        | none =>
          cases hnot : Table.get? members "not" with
          | some body =>
            rw [Json.isPlain_obj_of_combinator (by decide) hnot]
            exact readNegation_eq_ok_iff fun _ _ => ih
          | none =>
            rw [Json.isPlain_obj_of_condition (by simp [Filter.combinators, hand, hor, hnot])]
            exact readLeaf_eq_ok_iff
    | _ => simp [readFilter, Filter.written?]

end Written

section Rewritten

variable {m : Model} {limit depth : Nat} {f g : Filter} {raw : Json}

namespace Filter

theorem forall_conditions_of_written? {P : Condition → Prop}
    (h : ∀ members c, Condition.ofRaw? members = some c → P c) (raw : Json) :
    (∀ f, written? raw = some f → ∀ c ∈ f.conditions, P c) ∧
      ∀ parts, writtenList? raw = some parts → ∀ p ∈ parts, ∀ c ∈ p.conditions, P c := by
  induction raw with
  | obj members ih =>
    refine ⟨fun f hf c hc => ?_, fun parts hparts => by simp [writtenList?, Json.arr?] at hparts⟩
    have hcombine {key : String} {body : Json} (k : Connective)
        (hbody : Table.get? members key = some body)
        (hf : (writtenList? body).map k.combine = some f) : P c := by
      obtain ⟨parts, hparts, rfl⟩ := Option.map_eq_some_iff.mp hf
      obtain ⟨p, hp, hc⟩ := Connective.mem_conditions_combine.mp hc
      exact (ih _ (Table.mem_of_get?_eq_some hbody)).2 parts hparts p hp c hc
    rw [written?_obj] at hf
    split at hf
    · rename_i hbody
      exact hcombine .all hbody hf
    · rename_i hbody
      exact hcombine .any hbody hf
    · rename_i hbody
      obtain ⟨part, hpart, rfl⟩ := Option.map_eq_some_iff.mp hf
      exact (ih _ (Table.mem_of_get?_eq_some hbody)).1 part hpart c hc
    · obtain ⟨d, hd, rfl⟩ := Option.map_eq_some_iff.mp hf
      rw [List.mem_singleton.mp hc]
      exact h members d hd
  | arr items ih =>
    refine ⟨nofun, fun parts hparts p hp => ?_⟩
    obtain ⟨item, hitem, hwritten⟩ := exists_of_mem_mapM hparts hp
    exact (ih item hitem).1 p hwritten
  | _ => exact ⟨nofun, nofun⟩

theorem written?_toRaw (h : ∀ c ∈ f.conditions, c.operand.isFinite = true) :
    written? f.toRaw = some f := by
  have hparts {parts : List Filter}
      (ih : ∀ p ∈ parts, (∀ c ∈ p.conditions, c.operand.isFinite = true) →
        written? p.toRaw = some p)
      (h : ∀ c ∈ partsConditions parts, c.operand.isFinite = true) :
      writtenList? (.arr (toRawParts parts)) = some parts := by
    rw [toRawParts_eq_map]
    exact mapM_map fun p hp => ih p hp fun c hc => h c (mem_partsConditions.mpr ⟨p, hp, hc⟩)
  induction f with
  | all parts ih => simp [toRaw, written?_obj, hparts ih h]
  | any parts ih => simp [toRaw, written?_obj, hparts ih h]
  | not part ih => simp [toRaw, written?_obj, ih h]
  | leaf c => simp [toRaw, written?_obj, Condition.ofRaw?_toRaw (h c (by simp [conditions]))]

theorem isPlain_toRaw (f : Filter) : f.toRaw.isPlain = true := by
  have hparts {parts : List Filter} (ih : ∀ p ∈ parts, p.toRaw.isPlain = true) :
      Json.isPlain (.arr (toRawParts parts)) = true := by
    rw [toRawParts_eq_map]
    exact Json.plainItems_iff.mpr (List.forall_mem_map.mpr ih)
  induction f with
  | all parts ih => exact (Json.isPlain_singleton (by decide)).mpr (hparts ih)
  | any parts ih => exact (Json.isPlain_singleton (by decide)).mpr (hparts ih)
  | not part ih => exact (Json.isPlain_singleton (by decide)).mpr ih
  | leaf c => rfl

end Filter

theorem readFilter_toRaw_eq_ok_iff (h : ∀ c ∈ f.conditions, c.operand.isFinite = true) :
    readFilter m limit depth f.toRaw = .ok g ↔ f.Acceptable m depth ∧ m.normalize f = g := by
  simp [readFilter_eq_ok_iff, f.isPlain_toRaw, Filter.written?_toRaw h]

end Rewritten

end RowPolicy
