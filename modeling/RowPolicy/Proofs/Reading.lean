import RowPolicy.Proofs.JsonTree
import RowPolicy.Proofs.Result
import RowPolicy.QueryReader

/-!
The common steps of reading: the items of a list, the keys of an object and its optional parts.
For each step there is one statement on what it gives back and one on when it succeeds.
-/
namespace RowPolicy

variable {α β : Type}

@[simp] theorem fault_ne_ok (d : Defect) (a : α) : (fault d : Reading α) ≠ .ok a := nofun

namespace Table

theorem get?_append (t u : Table α) (k : String) : get? (t ++ u) k = (get? t k).or (get? u k) := by
  induction t with
  | nil => simp
  | cons p t ih =>
    obtain ⟨key, value⟩ := p
    by_cases h : key = k <;> simp [h, ih]

theorem get?_member? (key : String) (f : α → Json) (a : Option α) (k : String) :
    get? (member? key f a) k = if key = k then a.map f else none := by
  cases a <;> simp [member?]

theorem get?_unless (b : Bool) (key : String) (value : α) (k : String) :
    get? (if b = true then ([] : Table α) else [(key, value)]) k =
      if key = k then (if b = true then none else some value) else none := by
  cases b <;> simp

end Table

theorem expectKeys_eq_ok_iff {expected : List String} {members : List (String × Json)} :
    expectKeys expected members = .ok () ↔ ∀ p ∈ members, p.1 ∈ expected := by
  induction members with
  | nil => simp [expectKeys]
  | cons p members ih =>
    obtain ⟨key, value⟩ := p
    simp only [List.forall_mem_cons, expectKeys, List.contains_iff_mem]
    by_cases h : key ∈ expected
    · simp only [h, if_true, ih, true_and]
    · simp [h, under_eq_ok_iff]

theorem expectKeys_append {expected : List String} {members rest : List (String × Json)} :
    expectKeys expected (members ++ rest) = .ok () ↔
      expectKeys expected members = .ok () ∧ expectKeys expected rest = .ok () := by
  simp only [expectKeys_eq_ok_iff, List.forall_mem_append]

theorem expectKeys_member? {expected : List String} {key : String} (f : α → Json) (a : Option α)
    (h : key ∈ expected) : expectKeys expected (member? key f a) = .ok () := by
  cases a <;> simp [member?, expectKeys, h]

theorem expectKeys_unless {expected : List String} {key : String} (b : Bool) (value : Json)
    (h : key ∈ expected) :
    expectKeys expected (if b = true then [] else [(key, value)]) = .ok () := by
  cases b <;> simp [expectKeys, h]

section Items

variable {read : Json → Reading α}

theorem readItems_map {write : β → Json} {g : β → α} {xs : List β}
    (h : ∀ x ∈ xs, read (write x) = .ok (g x)) (i : Nat) :
    readItems read i (xs.map write) = .ok (xs.map g) := by
  induction xs generalizing i with
  | nil => rfl
  | cons x xs ih =>
    have hx := h x (by simp)
    have hxs := ih (fun y hy => h y (by simp [hy])) (i + 1)
    simp [readItems, hx, hxs]

/-- Reading the items of a list in one go comes to the same as viewing them one by one, holding the
items and their views to what the reader asks of each, and taking what it makes of the views. -/
theorem readItems_eq_ok_iff {view : Json → Option β} {P : Json → Prop} {Q : β → Prop} {g : β → α}
    (h : ∀ item a, read item = .ok a ↔ P item ∧ ∃ b, view item = some b ∧ Q b ∧ g b = a)
    {i : Nat} {items : List Json} {as : List α} :
    readItems read i items = .ok as ↔
      (∀ item ∈ items, P item) ∧ ∃ bs, items.mapM view = some bs ∧ (∀ b ∈ bs, Q b) ∧
        bs.map g = as := by
  induction items generalizing i as with
  | nil =>
    simp [readItems, eq_comm]
  | cons item items ih =>
    simp only [readItems, Result.bind_eq_ok_iff, under_eq_ok_iff, h, ih, Result.pure_eq_ok,
      List.mapM_cons, List.forall_mem_cons, Option.bind_eq_bind, Option.bind_eq_some_iff]
    constructor
    · rintro ⟨a, ⟨hp, b, hb, hq, rfl⟩, as', ⟨hps, bs, hbs, hqs, rfl⟩, h⟩
      cases h
      exact ⟨⟨hp, hps⟩, b :: bs, ⟨b, hb, bs, hbs, rfl⟩, List.forall_mem_cons.mpr ⟨hq, hqs⟩, rfl⟩
    · rintro ⟨⟨hp, hps⟩, _, ⟨b, hb, bs, hbs, h⟩, hqs, rfl⟩
      cases h
      obtain ⟨hq, hqs⟩ := List.forall_mem_cons.mp hqs
      exact ⟨g b, ⟨hp, b, hb, hq, rfl⟩, bs.map g, ⟨hps, bs, hbs, hqs, rfl⟩, rfl⟩

theorem mapM_of_readItems {view : Json → Option β} {g : α → β}
    (h : ∀ item a, read item = .ok a → view item = some (g a)) {i : Nat} {items : List Json}
    {as : List α} (hread : readItems read i items = .ok as) :
    items.mapM view = some (as.map g) := by
  induction items generalizing i as with
  | nil =>
    cases hread
    rfl
  | cons item items ih =>
    obtain ⟨first, hfirst, hread⟩ := Result.bind_eq_ok_iff.mp hread
    obtain ⟨rest, hrest, hread⟩ := Result.bind_eq_ok_iff.mp hread
    cases hread
    have hitem := h item first (under_eq_ok_iff.mp hfirst)
    have hitems := ih hrest
    simp [List.mapM_cons, hitem, hitems]

/-- Items that change one by one are viewed as before, but for what the change does to each view. -/
theorem mapM_map_of_mapM {γ δ : Type} {view : α → Option β} {view' : γ → Option δ} {e : α → γ}
    {g : β → δ} {items : List α}
    (h : ∀ item ∈ items, ∀ b, view item = some b → view' (e item) = some (g b)) {bs : List β}
    (hbs : items.mapM view = some bs) : (items.map e).mapM view' = some (bs.map g) := by
  induction items generalizing bs with
  | nil =>
    cases hbs
    rfl
  | cons item items ih =>
    simp only [List.mapM_cons, Option.bind_eq_bind, Option.bind_eq_some_iff] at hbs
    obtain ⟨b, hb, rest, hrest, hbs⟩ := hbs
    cases hbs
    have hitem := h item (by simp) b hb
    have hitems := ih (fun j hj => h j (by simp [hj])) hrest
    simp [List.mapM_cons, hitem, hitems]

theorem mapM_map {view : Json → Option β} {write : β → Json} {xs : List β}
    (h : ∀ x ∈ xs, view (write x) = some x) : (xs.map write).mapM view = some xs := by
  have hsome : xs.mapM some = some xs := by
    simpa using List.mapM_pure (m := Option) (f := id) (l := xs)
  simpa using mapM_map_of_mapM (g := id) (fun x hx b hb => by cases hb; exact h x hx) hsome

theorem exists_of_mem_mapM {view : Json → Option β} {items : List Json} {bs : List β} {b : β}
    (h : items.mapM view = some bs) (hb : b ∈ bs) : ∃ item ∈ items, view item = some b := by
  induction items generalizing bs with
  | nil =>
    cases h
    simp at hb
  | cons item items ih =>
    simp only [List.mapM_cons, Option.bind_eq_bind, Option.bind_eq_some_iff] at h
    obtain ⟨first, hfirst, rest, hrest, h⟩ := h
    cases h
    rcases List.mem_cons.mp hb with rfl | hb
    · exact ⟨item, by simp, hfirst⟩
    · obtain ⟨found, hmem, hfound⟩ := ih hrest hb
      exact ⟨found, by simp [hmem], hfound⟩

theorem exists_of_mem_readItems {i : Nat} {items : List Json} {as : List α} {a : α}
    (h : readItems read i items = .ok as) (ha : a ∈ as) : ∃ item ∈ items, read item = .ok a := by
  induction items generalizing i as with
  | nil =>
    cases h
    simp at ha
  | cons item items ih =>
    obtain ⟨first, hfirst, h⟩ := Result.bind_eq_ok_iff.mp h
    obtain ⟨rest, hrest, h⟩ := Result.bind_eq_ok_iff.mp h
    cases h
    rcases List.mem_cons.mp ha with rfl | ha
    · exact ⟨item, by simp, under_eq_ok_iff.mp hfirst⟩
    · obtain ⟨found, hmem, hfound⟩ := ih hrest ha
      exact ⟨found, by simp [hmem], hfound⟩

theorem length_readItems {i : Nat} {items : List Json} {as : List α}
    (h : readItems read i items = .ok as) : as.length = items.length := by
  induction items generalizing i as with
  | nil =>
    cases h
    rfl
  | cons item items ih =>
    obtain ⟨first, -, h⟩ := Result.bind_eq_ok_iff.mp h
    obtain ⟨rest, hrest, h⟩ := Result.bind_eq_ok_iff.mp h
    cases h
    simp [ih hrest]

end Items

section Optional

variable {key : String} {members : List (String × Json)} {missing a : α} {read : Json → Reading α}

theorem readOptional_unless {b : Bool} {raw : Json}
    (h : Table.get? members key = if b = true then none else some raw)
    (hmissing : b = true → missing = a) (hread : b = false → read raw = .ok a) :
    readOptional key members missing read = .ok a := by
  cases b with
  | true => simp [readOptional, h, hmissing rfl]
  | false => simp [readOptional, h, hread rfl]

theorem readOptional_map {x : Option α} {write : α → Json} {read : Json → Reading (Option α)}
    (h : Table.get? members key = x.map write) (hread : ∀ a ∈ x, read (write a) = .ok (some a)) :
    readOptional key members none read = .ok x := by
  cases x with
  | none => simp [readOptional, h]
  | some a => simp [readOptional, h, hread a rfl]

/-- What holds without the part and whenever it is read holds in any case. -/
@[elab_as_elim]
theorem of_readOptional {motive : α → Prop} (h : readOptional key members missing read = .ok a)
    (hmissing : motive missing) (hread : ∀ raw, read raw = .ok a → motive a) : motive a := by
  unfold readOptional at h
  split at h
  · cases h
    exact hmissing
  · exact hread _ (under_eq_ok_iff.mp h)

end Optional

end RowPolicy
