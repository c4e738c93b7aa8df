import RowPolicy.Proofs.QueryParts

/-!
Queries written out and read again. A query is valid when every node of its include tree fits its
model; reading gives back valid queries only, and a valid query that is written out is read back as
it was.
-/
namespace RowPolicy

namespace Query

/-- What a query asks for is there in its model, and its page fits the limits. -/
structure Fits (q : Query) (m : Model) (limits : QueryLimits) : Prop where
  filter : q.filter.Valid m limits.filterDepth.toNat
  distinct : (q.includes.map (·.relation.name)).Nodup
  includes : ∀ i ∈ q.includes, m.includes i
  sort : ∀ c ∈ q.sort, m.sorts c = true
  page : q.page.Valid limits.pageSize

instance (q : Query) (m : Model) (limits : QueryLimits) : Decidable (q.Fits m limits) :=
  decidable_of_iff (q.filter.Valid m limits.filterDepth.toNat ∧
      (q.includes.map (·.relation.name)).Nodup ∧ (∀ i ∈ q.includes, m.includes i) ∧
      (∀ c ∈ q.sort, m.sorts c = true) ∧ q.page.Valid limits.pageSize)
    ⟨fun h => ⟨h.1, h.2.1, h.2.2.1, h.2.2.2.1, h.2.2.2.2⟩,
      fun h => ⟨h.filter, h.distinct, h.includes, h.sort, h.page⟩⟩

def FitsIn (s : Schema) (limits : QueryLimits) (q : Query) : Prop :=
  ∃ m ∈ s.model? q.model, q.Fits m limits

instance (s : Schema) (limits : QueryLimits) (q : Query) : Decidable (q.FitsIn s limits) :=
  inferInstanceAs (Decidable (∃ m ∈ s.model? q.model, q.Fits m limits))

/-- A query that fits its model, as do the queries of its includes, which nest at most `depth`
deep. -/
def ValidTo (s : Schema) (limits : QueryLimits) : Nat → Query → Prop
  | 0, q => q.FitsIn s limits ∧ q.includes = []
  | depth + 1, q => q.FitsIn s limits ∧ ∀ i ∈ q.includes, i.query.ValidTo s limits depth

instance decidableValidTo (s : Schema) (limits : QueryLimits) :
    (depth : Nat) → (q : Query) → Decidable (q.ValidTo s limits depth)
  | 0, _ => inferInstanceAs (Decidable (_ ∧ _))
  | depth + 1, q =>
    have := decidableValidTo s limits depth
    inferInstanceAs (Decidable (_ ∧ ∀ i ∈ q.includes, i.query.ValidTo s limits depth))

def Valid (s : Schema) (limits : QueryLimits) (q : Query) : Prop :=
  q.ValidTo s limits limits.includeDepth.toNat

instance (s : Schema) (limits : QueryLimits) (q : Query) : Decidable (q.Valid s limits) :=
  decidableValidTo s limits limits.includeDepth.toNat q

theorem includesToRaw_eq_map (includes : List (Include Query)) :
    includesToRaw includes = includes.map Include.toRaw := by
  induction includes with
  | nil => rfl
  | cons i includes ih => rw [includesToRaw, ih]; rfl

theorem toRaw_eq (q : Query) : q.toRaw = .obj
    ((if q.filter.isMatchAll = true then [] else [("filters", q.filter.toRaw)]) ++
      (if q.includes.isEmpty = true then [] else
        [("include", .arr (q.includes.map Include.toRaw))]) ++
      (if q.page.isEmpty = true then [] else [("pagination", q.page.toRaw)]) ++
      (if q.sort.isEmpty = true then [] else
        [("sort", .arr (q.sort.map SortClause.toRaw))])) := by
  obtain ⟨model, filter, includes, sort, page⟩ := q
  rw [toRaw, includesToRaw_eq_map]

theorem fits_everything (model : String) (m : Model) (limits : QueryLimits) :
    (everything model).Fits m limits where
  filter := ⟨rfl, nofun, .inl rfl⟩
  distinct := List.nodup_nil
  includes := nofun
  sort := nofun
  page := ⟨nofun, nofun, .inl rfl⟩

end Query

theorem Page.isEmpty_iff {p : Page} : p.isEmpty = true ↔ p = {} := by
  obtain ⟨limit, offset, cursor⟩ := p
  simp [isEmpty, and_assoc]

theorem Schema.readModel_eq_ok_iff {s : Schema} {model : String} {m : Model} :
    s.readModel model = .ok m ↔ s.model? model = some m := by
  unfold readModel
  cases s.model? model <;> simp

variable {s : Schema} {limits : QueryLimits} {depth : Nat} {model : String} {raw : Json} {q : Query}

section Parts

variable {item : Model → List String → Json → Reading (Include Query)} {m : Model}

theorem readQueryWith_of_members {members : List (String × Json)} (hm : s.model? q.model = some m)
    (h : q.Fits m limits)
    (hkeys : expectKeys ["filters", "include", "sort", "pagination"] members = .ok ())
    (hfilter : Table.get? members "filters" =
      if q.filter.isMatchAll = true then none else some q.filter.toRaw)
    (hincludes : Table.get? members "include" =
      if q.includes.isEmpty = true then none else some (.arr (q.includes.map Include.toRaw)))
    (hsort : Table.get? members "sort" =
      if q.sort.isEmpty = true then none else some (.arr (q.sort.map SortClause.toRaw)))
    (hpage : Table.get? members "pagination" =
      if q.page.isEmpty = true then none else some q.page.toRaw)
    (hread : q.includes ≠ [] →
      readIncludes (item m) [] 0 (q.includes.map Include.toRaw) = .ok q.includes) :
    readQueryWith s limits item q.model (.obj members) = .ok q := by
  have filter : readOptional "filters" members .matchAll
      (readFilter m limits.filterDepth.toNat limits.filterDepth.toNat) = .ok q.filter := by
    refine readOptional_unless hfilter (fun he => ?_) fun hne => ?_
    · exact ((Filter.isMatchAll_iff _).mp he).symm
    · refine readFilter_toRaw_of_valid h.filter fun he => ?_
      rw [(Filter.isMatchAll_iff _).mpr he] at hne
      cases hne
  have includes : readOptional "include" members [] (readIncludeList (item m)) =
      .ok q.includes := by
    refine readOptional_unless hincludes (fun he => ?_) fun hne => ?_
    · exact (List.isEmpty_iff.mp he).symm
    · exact hread (List.isEmpty_eq_false_iff.mp hne)
  have sort : readOptional "sort" members [] (readSort m) = .ok q.sort := by
    refine readOptional_unless hsort (fun he => ?_) fun _ => ?_
    · exact (List.isEmpty_iff.mp he).symm
    · exact readSort_toRaw h.sort
  have page : readOptional "pagination" members {} (readPage limits.pageSize) = .ok q.page := by
    refine readOptional_unless hpage (fun he => ?_) fun _ => ?_
    · exact (Page.isEmpty_iff.mp he).symm
    · exact readPage_toRaw h.page
  have model := Schema.readModel_eq_ok_iff.mpr hm
  have parts : (⟨q.model, q.filter, q.includes, q.sort, q.page⟩ : Query) = q := by cases q; rfl
  simp [readQueryWith, model, hkeys, filter, includes, sort, page, parts]

theorem readQueryWith_toRaw (hm : s.model? q.model = some m) (h : q.Fits m limits)
    (hread : q.includes ≠ [] →
      readIncludes (item m) [] 0 (q.includes.map Include.toRaw) = .ok q.includes) :
    readQueryWith s limits item q.model q.toRaw = .ok q := by
  rw [Query.toRaw_eq]
  refine readQueryWith_of_members hm h ?_ ?_ ?_ ?_ ?_ hread
  · simp only [expectKeys_append]
    refine ⟨⟨⟨?_, ?_⟩, ?_⟩, ?_⟩ <;> exact expectKeys_unless _ _ (by simp)
  · simp only [Table.get?_append, Table.get?_unless, String.reduceEq, reduceIte, Option.or_none]
  · simp only [Table.get?_append, Table.get?_unless, String.reduceEq, reduceIte, Option.or_none,
      Option.none_or]
  · simp only [Table.get?_append, Table.get?_unless, String.reduceEq, reduceIte, Option.none_or]
  · simp only [Table.get?_append, Table.get?_unless, String.reduceEq, reduceIte, Option.or_none,
      Option.none_or]

theorem fitsIn_of_readQueryWith {P : Include Query → Prop}
    (hitem : ∀ m seen raw i, item m seen raw = .ok i →
      i.relation.name ∉ seen ∧ m.includes i ∧ P i)
    (h : readQueryWith s limits item model raw = .ok q) :
    q.model = model ∧ q.FitsIn s limits ∧ ∀ i ∈ q.includes, P i := by
  obtain ⟨m, hm, h⟩ := Result.bind_eq_ok_iff.mp h
  have hm := Schema.readModel_eq_ok_iff.mp hm
  split at h
  · cases h
    exact ⟨rfl, ⟨m, hm, Query.fits_everything model m limits⟩, nofun⟩
  · obtain ⟨_, -, h⟩ := Result.bind_eq_ok_iff.mp h
    obtain ⟨filter, hfilter, h⟩ := Result.bind_eq_ok_iff.mp h
    obtain ⟨includes, hincludes, h⟩ := Result.bind_eq_ok_iff.mp h
    obtain ⟨sort, hsort, h⟩ := Result.bind_eq_ok_iff.mp h
    obtain ⟨page, hpage, h⟩ := Result.bind_eq_ok_iff.mp h
    cases h
    have hfits := Query.fits_everything model m limits
    have filterValid : filter.Valid m limits.filterDepth.toNat := by
      refine of_readOptional hfilter hfits.filter fun raw hread => ?_
      obtain ⟨hcanonical, hadmitted, hdepth⟩ := valid_of_readFilter hread
      exact ⟨hcanonical, hadmitted, .inr hdepth⟩
    have includesValid : (includes.map (·.relation.name)).Nodup ∧
        ∀ i ∈ includes, m.includes i ∧ P i :=
      of_readOptional hincludes ⟨List.nodup_nil, nofun⟩ fun raw hread =>
        readIncludeList_spec (hitem m) hread
    have sortValid : ∀ c ∈ sort, m.sorts c = true :=
      of_readOptional hsort nofun fun raw hread => sorts_of_readSort hread
    have pageValid : page.Valid limits.pageSize :=
      of_readOptional hpage hfits.page fun raw hread => valid_of_readPage hread
    exact ⟨rfl, ⟨m, hm, filterValid, includesValid.1, fun i hi => (includesValid.2 i hi).1,
      sortValid, pageValid⟩, fun i hi => (includesValid.2 i hi).2⟩
  · cases h

end Parts

/-- Valid queries survive being written out and read again. -/
theorem readQuery_toRaw (h : q.ValidTo s limits depth) :
    readQuery s limits depth q.model q.toRaw = .ok q := by
  induction depth generalizing q with
  | zero =>
    obtain ⟨⟨m, hm, hfits⟩, hnone⟩ := h
    exact readQueryWith_toRaw hm hfits fun hne => absurd hnone hne
  | succ depth ih =>
    obtain ⟨⟨m, hm, hfits⟩, hincludes⟩ := h
    refine readQueryWith_toRaw hm hfits fun _ => readIncludes_map (fun i hi seen hseen => ?_)
      hfits.distinct (by simp)
    obtain ⟨hrelation, htarget⟩ := hfits.includes i hi
    refine readInclude_toRaw hrelation hseen ?_
    rw [← htarget]
    exact ih (hincludes i hi)

theorem valid_of_readQuery (h : readQuery s limits depth model raw = .ok q) :
    q.model = model ∧ q.ValidTo s limits depth := by
  induction depth generalizing model raw q with
  | zero =>
    have hitem : ∀ (m : Model) (seen : List String) (raw : Json) (i : Include Query),
        (fault (.includeTooDeep limits.includeDepth.toNat) : Reading (Include Query)) = .ok i →
        i.relation.name ∉ seen ∧ m.includes i ∧ False :=
      fun _ _ _ _ hi => absurd hi (fault_ne_ok _ _)
    obtain ⟨hmodel, hfits, hnone⟩ := fitsIn_of_readQueryWith hitem h
    exact ⟨hmodel, hfits, List.eq_nil_iff_forall_not_mem.mpr hnone⟩
  | succ depth ih =>
    have hitem : ∀ m seen raw i, readInclude (readQuery s limits depth) m seen raw = .ok i →
        i.relation.name ∉ seen ∧ m.includes i ∧ i.query.ValidTo s limits depth := by
      intro m seen raw i hi
      obtain ⟨hrelation, hseen, raw, hquery⟩ := readInclude_spec hi
      obtain ⟨htarget, hvalid⟩ := ih hquery
      exact ⟨hseen, ⟨hrelation, htarget⟩, hvalid⟩
    exact fitsIn_of_readQueryWith hitem h

namespace Schema

theorem valid_of_parse (h : s.parse limits model raw = .ok q) :
    q.model = model ∧ q.Valid s limits :=
  valid_of_readQuery (Result.mapError_eq_ok_iff.mp h)

theorem parse_toRaw_of_valid (h : q.Valid s limits) : s.parse limits q.model q.toRaw = .ok q :=
  Result.mapError_eq_ok_iff.mpr (readQuery_toRaw h)

/-- Writing a valid query out and reading it again changes nothing, reading gives back valid
queries only, and so what was read once is read again as it was. -/
theorem parse_toRaw (s : Schema) (limits : QueryLimits) :
    (∀ q : Query, q.Valid s limits → s.parse limits q.model q.toRaw = .ok q) ∧
      ∀ model raw q, s.parse limits model raw = .ok q →
        q.model = model ∧ q.Valid s limits ∧ s.parse limits model q.toRaw = .ok q := by
  refine ⟨fun q h => parse_toRaw_of_valid h, fun model raw q h => ?_⟩
  obtain ⟨rfl, hvalid⟩ := valid_of_parse h
  exact ⟨rfl, hvalid, parse_toRaw_of_valid hvalid⟩

/-- Customers with their orders, and the tags of an order through a junction model. -/
def shopModels : List ModelDecl :=
  [⟨"customer", [⟨"name", .text, true, false, none⟩], [⟨"orders", "order", .many, none⟩], none⟩,
    ⟨"order", [⟨"total", .float, true, true, none⟩], [⟨"tags", "tag", .many, some "order_tag"⟩],
      none⟩,
    ⟨"tag", [⟨"label", .text, false, false, some [.eq]⟩], [], none⟩,
    ⟨"order_tag", [⟨"visible", .boolean, false, false, none⟩], [], some ⟨"order", "tag"⟩⟩]

def shop : Schema := (sealUp ⟨shopModels.map .ofDecl, false⟩).2

/-- The first customers by name with their priced orders and the tags of these. -/
def firstCustomers : Query :=
  ⟨"customer", .any [.leaf ⟨"name", .like, .single (.text "A%")⟩,
      .not (.leaf ⟨"name", .oneOf, .list [.text "Bob"]⟩)],
    [⟨⟨"orders", "order", .many, none⟩,
      ⟨"order", .not (.leaf ⟨"total", .is, .null⟩),
        [⟨⟨"tags", "tag", .many, some "order_tag"⟩, .everything "tag"⟩], [], {}⟩⟩],
    [⟨"name", .desc⟩], ⟨some 10, some 20, none⟩⟩

theorem shop_parse_firstCustomers : firstCustomers.Valid shop {} ∧
    shop.parse {} "customer" firstCustomers.toRaw = .ok firstCustomers ∧
    ∃ q, shop.parse {} "tag" (.obj [("filters", .obj [("and", .arr [])])]) = .ok q ∧
      q.Valid shop {} ∧ shop.parse {} "tag" q.toRaw = .ok q := by
  have hvalid : firstCustomers.Valid shop {} := by decide +kernel
  obtain ⟨hwritten, hread⟩ := parse_toRaw shop {}
  have htags : shop.parse {} "tag" (.obj [("filters", .obj [("and", .arr [])])]) =
      .ok (.everything "tag") := rfl
  exact ⟨hvalid, hwritten firstCustomers hvalid, _, htags, (hread _ _ _ htags).2⟩

end Schema

end RowPolicy
