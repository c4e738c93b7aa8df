import RowPolicy.Proofs.FilterValidity

/-!
The parts of a query other than its filter: the page, the sort clauses and the includes. For each it
is said what a model accepts; reading gives back nothing else, and what a model accepts comes back
when it is written out and read again.
-/
namespace RowPolicy

section Page

/-- A page that fits a limit, with counts of the signed range and at most one of offset and
cursor. -/
structure Page.Valid (p : Page) (maximum : UInt64) : Prop where
  limit : ∀ n ∈ p.limit, n ≤ maximum ∧ n.toNat < 0x8000000000000000
  offset : ∀ n ∈ p.offset, n.toNat < 0x8000000000000000
  exclusive : p.offset = none ∨ p.cursor = none

instance (p : Page) (maximum : UInt64) : Decidable (p.Valid maximum) :=
  decidable_of_iff (p.limit.all (fun n => n ≤ maximum && n.toNat < 0x8000000000000000) = true ∧
      p.offset.all (·.toNat < 0x8000000000000000) = true ∧
      (p.offset = none ∨ p.cursor = none)) <| by
    simp only [Option.all_eq_true, Bool.and_eq_true, decide_eq_true_eq]
    exact ⟨fun h => ⟨h.1, h.2.1, h.2.2⟩, fun h => ⟨h.limit, h.offset, h.exclusive⟩⟩

theorem readCount_eq (n : Number) : readCount (.num n) =
    match n.toInt64? with
    | none => fault .expectedInteger
    | some i => if 0 ≤ i.toInt then .ok i.toUInt64 else fault (.negative i.toInt) := rfl

theorem readCount_ofUInt64 {n : UInt64} (h : n.toNat < 0x8000000000000000) :
    readCount (.ofUInt64 n) = .ok n := by
  have hsigned : 0 ≤ (Int64.ofInt n.toNat).toInt := by
    rw [toInt_ofInt_toNat h]
    exact Int.natCast_nonneg _
  rw [Json.ofUInt64, readCount_eq, Number.toInt64?_ofUInt64 h]
  simp only [hsigned, if_true, toUInt64_ofInt_toNat]

theorem lt_of_readCount {raw : Json} {n : UInt64} (h : readCount raw = .ok n) :
    n.toNat < 0x8000000000000000 := by
  simp only [readCount] at h
  split at h
  · cases h
  · split at h
    · rename_i hle
      cases h
      exact toNat_toUInt64_lt hle
    · cases h

variable {maximum : UInt64} {p : Page}

theorem readLimit_eq_ok_iff {raw : Json} {n : UInt64} :
    readLimit maximum raw = .ok n ↔ readCount raw = .ok n ∧ n ≤ maximum := by
  unfold readLimit
  cases readCount raw with
  | error e => simp
  | ok k =>
    by_cases hk : k ≤ maximum
    · simp only [Result.ok_bind, hk, if_true, Result.pure_eq_ok, Except.ok.injEq]
      exact ⟨fun he => ⟨he, he ▸ hk⟩, fun h => h.1⟩
    · simp only [Result.ok_bind, hk, if_false, fault_ne_ok, Except.ok.injEq, false_iff]
      rintro ⟨rfl, h⟩
      exact hk h

theorem readCursor_eq_ok_iff {offset : Option UInt64} {raw : Json} {text : String} :
    readCursor offset raw = .ok text ↔ raw = .str text ∧ offset = none := by
  unfold readCursor
  split
  · cases offset <;> simp
  · rename_i hraw
    simpa using fun he => absurd he (hraw text)

theorem readPage_of_members {members : List (String × Json)} (h : p.Valid maximum)
    (hkeys : expectKeys ["limit", "offset", "cursor"] members = .ok ())
    (hlimit : Table.get? members "limit" = p.limit.map .ofUInt64)
    (hoffset : Table.get? members "offset" = p.offset.map .ofUInt64)
    (hcursor : Table.get? members "cursor" = p.cursor.map .str) :
    readPage maximum (.obj members) = .ok p := by
  have limit : readOptional "limit" members none (fun raw => some <$> readLimit maximum raw) =
      .ok p.limit := by
    refine readOptional_map hlimit fun n hn => ?_
    obtain ⟨hle, hlt⟩ := h.limit n hn
    rw [readLimit_eq_ok_iff.mpr ⟨readCount_ofUInt64 hlt, hle⟩, Result.map_ok]
  have offset : readOptional "offset" members none (fun raw => some <$> readCount raw) =
      .ok p.offset := by
    refine readOptional_map hoffset fun n hn => ?_
    rw [readCount_ofUInt64 (h.offset n hn), Result.map_ok]
  have cursor : readOptional "cursor" members none (fun raw => some <$> readCursor p.offset raw) =
      .ok p.cursor := by
    refine readOptional_map hcursor fun text htext => ?_
    have hnone : p.offset = none := h.exclusive.resolve_right (by simp [Option.mem_def.mp htext])
    rw [readCursor_eq_ok_iff.mpr ⟨rfl, hnone⟩, Result.map_ok]
  simp [readPage, hkeys, limit, offset, cursor]

theorem readPage_toRaw (h : p.Valid maximum) : readPage maximum p.toRaw = .ok p := by
  refine readPage_of_members h ?_ ?_ ?_ ?_
  · simp [expectKeys_append, expectKeys_member?]
  · simp [Table.get?_append, Table.get?_member?]
  · simp [Table.get?_append, Table.get?_member?]
  · simp [Table.get?_append, Table.get?_member?]

theorem valid_of_readPage {raw : Json} (h : readPage maximum raw = .ok p) : p.Valid maximum := by
  unfold readPage at h
  split at h
  · obtain ⟨_, -, h⟩ := Result.bind_eq_ok_iff.mp h
    obtain ⟨limit, hlimit, h⟩ := Result.bind_eq_ok_iff.mp h
    obtain ⟨offset, hoffset, h⟩ := Result.bind_eq_ok_iff.mp h
    obtain ⟨cursor, hcursor, h⟩ := Result.bind_eq_ok_iff.mp h
    cases h
    have limitValid : ∀ n ∈ limit, n ≤ maximum ∧ n.toNat < 0x8000000000000000 := by
      refine of_readOptional hlimit nofun fun raw hread => ?_
      obtain ⟨k, hk, rfl⟩ := Result.map_eq_ok_iff.mp hread
      rintro n ⟨⟩
      obtain ⟨hcount, hle⟩ := readLimit_eq_ok_iff.mp hk
      exact ⟨hle, lt_of_readCount hcount⟩
    have offsetValid : ∀ n ∈ offset, n.toNat < 0x8000000000000000 := by
      refine of_readOptional hoffset nofun fun raw hread => ?_
      obtain ⟨k, hk, rfl⟩ := Result.map_eq_ok_iff.mp hread
      rintro n ⟨⟩
      exact lt_of_readCount hk
    have exclusive : offset = none ∨ cursor = none := by
      refine of_readOptional hcursor (.inr rfl) fun raw hread => ?_
      obtain ⟨text, htext, -⟩ := Result.map_eq_ok_iff.mp hread
      exact .inl (readCursor_eq_ok_iff.mp htext).2
    exact ⟨limitValid, offsetValid, exclusive⟩
  · cases h

end Page

section Sorting

def Model.sorts (m : Model) (c : SortClause) : Bool :=
  (m.field? c.field).any (·.decl.sortable)

variable {m : Model} {c : SortClause}

theorem asciiLower_name (d : Direction) : asciiLower d.name = d.name := by
  cases d <;> decide +kernel

theorem readDirection_name (d : Direction) : readDirection d.name = .ok d := by
  rw [readDirection, asciiLower_name]
  cases d <;> rfl

theorem readSortable_eq_ok_iff {name : String} {d : Direction} :
    readSortable m name = .ok () ↔ m.sorts ⟨name, d⟩ = true := by
  unfold readSortable Model.sorts
  cases m.field? name with
  | none => simp
  | some f => cases hsortable : f.decl.sortable <;> simp [hsortable]

theorem readSortClause_toRaw (h : m.sorts c = true) : readSortClause m c.toRaw = .ok c := by
  have hsortable : readSortable m c.field = .ok () := readSortable_eq_ok_iff.mpr h
  simp [SortClause.toRaw, readSortClause, expectKeys, Json.str?, readOptional, readDirection_name,
    hsortable]

theorem sorts_of_readSortClause {raw : Json} (h : readSortClause m raw = .ok c) :
    m.sorts c = true := by
  unfold readSortClause at h
  split at h
  · obtain ⟨direction, -, h⟩ := Result.bind_eq_ok_iff.mp h
    obtain ⟨_, hsortable, h⟩ := Result.bind_eq_ok_iff.mp h
    cases h
    exact readSortable_eq_ok_iff.mp hsortable
  · obtain ⟨_, -, h⟩ := Result.bind_eq_ok_iff.mp h
    split at h
    · obtain ⟨direction, -, h⟩ := Result.bind_eq_ok_iff.mp h
      obtain ⟨_, hsortable, h⟩ := Result.bind_eq_ok_iff.mp h
      cases h
      exact readSortable_eq_ok_iff.mp (under_eq_ok_iff.mp hsortable)
    · cases h
  · cases h

theorem readSort_toRaw {clauses : List SortClause} (h : ∀ c ∈ clauses, m.sorts c = true) :
    readSort m (.arr (clauses.map SortClause.toRaw)) = .ok clauses := by
  have hread : readSort m (.arr (clauses.map SortClause.toRaw)) = .ok (clauses.map id) :=
    readItems_map (fun c hc => readSortClause_toRaw (h c hc)) 0
  rwa [List.map_id] at hread

theorem sorts_of_readSort {raw : Json} {clauses : List SortClause}
    (h : readSort m raw = .ok clauses) : ∀ c ∈ clauses, m.sorts c = true := by
  intro c hc
  unfold readSort at h
  split at h
  · obtain ⟨item, -, hitem⟩ := exists_of_mem_readItems h hc
    exact sorts_of_readSortClause hitem
  · cases h

end Sorting

section Includes

variable {m : Model}

theorem Model.name_of_relation? {name : String} {r : Relation} (h : m.relation? name = some r) :
    r.name = name := by
  simpa using List.find?_some h

/-- An include that follows a relation of a model to its target. -/
def Model.includes (m : Model) (i : Include Query) : Prop :=
  m.relation? i.relation.name = some i.relation ∧ i.query.model = i.relation.target

instance (m : Model) (i : Include Query) : Decidable (m.includes i) :=
  inferInstanceAs (Decidable (_ ∧ _))

theorem readRelation_eq_ok_iff {seen : List String} {name : String} {r : Relation} :
    readRelation m seen name = .ok r ↔ m.relation? name = some r ∧ name ∉ seen := by
  unfold readRelation
  cases m.relation? name with
  | none => simp
  | some found => by_cases hseen : name ∈ seen <;> simp [hseen]

section Include

variable {read : String → Json → Reading Query} {seen : List String} {i : Include Query}

def Include.toRaw (i : Include Query) : Json :=
  .obj [("query", i.query.toRaw), ("relation", .str i.relation.name)]

theorem readInclude_toRaw (hrelation : m.relation? i.relation.name = some i.relation)
    (hseen : i.relation.name ∉ seen) (hread : read i.relation.target i.query.toRaw = .ok i.query) :
    readInclude read m seen i.toRaw = .ok i := by
  have hrelation := readRelation_eq_ok_iff.mpr ⟨hrelation, hseen⟩
  simp [Include.toRaw, readInclude, expectKeys, Json.str?, hrelation, hread]

/-- An include is of a relation that was not followed before, and its query was read over the
target. -/
theorem readInclude_spec {raw : Json} (h : readInclude read m seen raw = .ok i) :
    m.relation? i.relation.name = some i.relation ∧ i.relation.name ∉ seen ∧
      ∃ raw, read i.relation.target raw = .ok i.query := by
  have hspec {name : String} {r : Relation} {raw : Json} {q : Query}
      (hr : readRelation m seen name = .ok r) (hq : read r.target raw = .ok q) :
      m.relation? r.name = some r ∧ r.name ∉ seen ∧ ∃ raw, read r.target raw = .ok q := by
    obtain ⟨hr, hseen⟩ := readRelation_eq_ok_iff.mp hr
    rw [Model.name_of_relation? hr]
    exact ⟨hr, hseen, raw, hq⟩
  unfold readInclude at h
  split at h
  · obtain ⟨r, hr, h⟩ := Result.bind_eq_ok_iff.mp h
    obtain ⟨q, hq, h⟩ := Result.bind_eq_ok_iff.mp h
    cases h
    exact hspec hr (under_eq_ok_iff.mp hq)
  · obtain ⟨_, -, h⟩ := Result.bind_eq_ok_iff.mp h
    obtain ⟨r, hr, h⟩ := Result.bind_eq_ok_iff.mp h
    obtain ⟨q, hq, h⟩ := Result.bind_eq_ok_iff.mp h
    cases h
    rw [under_eq_ok_iff] at hr
    split at hr
    · cases hr
    · exact hspec hr (under_eq_ok_iff.mp hq)
  · cases h

end Include

variable {item : List String → Json → Reading (Include Query)} {seen : List String}
  {includes : List (Include Query)}

theorem readIncludes_map {position : Nat}
    (h : ∀ i ∈ includes, ∀ seen, i.relation.name ∉ seen → item seen i.toRaw = .ok i)
    (hdistinct : (includes.map (·.relation.name)).Nodup)
    (hseen : ∀ i ∈ includes, i.relation.name ∉ seen) :
    readIncludes item seen position (includes.map Include.toRaw) = .ok includes := by
  induction includes generalizing seen position with
  | nil => rfl
  | cons i includes ih =>
    rw [List.map_cons, List.nodup_cons] at hdistinct
    have hi := h i (by simp) seen (hseen i (by simp))
    -- The list of names seen grows by this one, which by `hdistinct` does not come again.
    have hrest : readIncludes item (i.relation.name :: seen) (position + 1)
        (includes.map Include.toRaw) = .ok includes := by
      refine ih (fun j hj => h j (by simp [hj])) hdistinct.2 fun j hj hmem => ?_
      rcases List.mem_cons.mp hmem with he | hmem
      · exact hdistinct.1 (List.mem_map.mpr ⟨j, hj, he⟩)
      · exact hseen j (by simp [hj]) hmem
    simp [readIncludes, hi, hrest]

/-- What holds of every include that is read holds of all of them, and no relation is followed
twice. -/
theorem readIncludes_spec {P : Include Query → Prop} {position : Nat} {items : List Json}
    (hitem : ∀ seen raw i, item seen raw = .ok i → i.relation.name ∉ seen ∧ P i)
    (h : readIncludes item seen position items = .ok includes) :
    (includes.map (·.relation.name)).Nodup ∧ ∀ i ∈ includes, i.relation.name ∉ seen ∧ P i := by
  induction items generalizing seen position includes with
  | nil =>
    cases h
    simp
  | cons raw items ih =>
    obtain ⟨one, hone, h⟩ := Result.bind_eq_ok_iff.mp h
    obtain ⟨rest, hrest, h⟩ := Result.bind_eq_ok_iff.mp h
    cases h
    obtain ⟨hdistinct, hmem⟩ := ih hrest
    refine ⟨List.nodup_cons.mpr ⟨?_, hdistinct⟩, List.forall_mem_cons.mpr ⟨?_, ?_⟩⟩
    · rintro hname
      obtain ⟨i, hi, he⟩ := List.mem_map.mp hname
      exact (hmem i hi).1 (by simp [he])
    · exact hitem seen raw one (under_eq_ok_iff.mp hone)
    · exact fun i hi => ⟨fun hs => (hmem i hi).1 (by simp [hs]), (hmem i hi).2⟩

theorem readIncludeList_spec {P : Include Query → Prop} {raw : Json}
    (hitem : ∀ seen raw i, item seen raw = .ok i → i.relation.name ∉ seen ∧ P i)
    (h : readIncludeList item raw = .ok includes) :
    (includes.map (·.relation.name)).Nodup ∧ ∀ i ∈ includes, P i := by
  unfold readIncludeList at h
  split at h
  · obtain ⟨hdistinct, hmem⟩ := readIncludes_spec hitem h
    exact ⟨hdistinct, fun i hi => (hmem i hi).2⟩
  · cases h

end Includes

end RowPolicy
