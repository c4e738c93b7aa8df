import RowPolicy.Proofs.Places
import RowPolicy.Proofs.RoundTrip

/-!
The faults that reading ends with, followed through the steps that a reader is made of. Main
statement: the readers of operands, directions and pages fail only with what is wrong in the form of
a value, at a place of this value.
-/
namespace RowPolicy

/-- If the reading fails, then with a fault that `P` holds of. -/
def FailsWith {α : Type} (P : Fault → Prop) (r : Reading α) : Prop := ∀ f, r = .error f → P f

section Steps

variable {α β : Type} {P : Fault → Prop} {r : Reading α}

@[simp] theorem failsWith_ok (a : α) : FailsWith P (.ok a : Reading α) := nofun

@[simp] theorem failsWith_pure (a : α) : FailsWith P (pure a : Reading α) := nofun

theorem failsWith_fault {d : Defect} : FailsWith P (fault d : Reading α) ↔ P ⟨[], d⟩ := by
  simp [FailsWith, fault]

theorem failsWith_under {s : Step} :
    FailsWith P (under s r) ↔ FailsWith (fun f => P ⟨s :: f.path, f.defect⟩) r := by
  cases r <;> simp [FailsWith]

@[simp] theorem failsWith_map {f : α → β} : FailsWith P (f <$> r) ↔ FailsWith P r := by
  cases r <;> simp [FailsWith]

@[simp] theorem failsWith_bind {f : α → Reading β} :
    FailsWith P (r >>= f) ↔ FailsWith P r ∧ ∀ a, r = .ok a → FailsWith P (f a) := by
  cases r <;> simp [FailsWith]

theorem FailsWith.mono {Q : Fault → Prop} (h : FailsWith P r) (hPQ : ∀ f, P f → Q f) :
    FailsWith Q r :=
  fun f hf => hPQ f (h f hf)

theorem failsWith_readItems {read : Json → Reading α} {i : Nat} {items : List Json}
    (h : ∀ k item, items[k]? = some item → FailsWith
      (fun f => P ⟨.index (i + k) :: f.path, f.defect⟩) (read item)) :
    FailsWith P (readItems read i items) := by
  induction items generalizing i with
  | nil => exact failsWith_ok []
  | cons item items ih =>
    have hfirst := h 0 item rfl
    have hrest : FailsWith P (readItems read (i + 1) items) := ih fun k item hitem => by
      have hk := h (k + 1) item hitem
      rwa [show i + (k + 1) = i + 1 + k by omega] at hk
    simpa [readItems, failsWith_under, hrest] using hfirst

theorem failsWith_readOptional {key : String} {members : List (String × Json)} {missing : α}
    {read : Json → Reading α} (h : ∀ raw, Table.get? members key = some raw →
      FailsWith (fun f => P ⟨.key key :: f.path, f.defect⟩) (read raw)) :
    FailsWith P (readOptional key members missing read) := by
  unfold readOptional
  split
  · exact failsWith_ok missing
  · exact failsWith_under.mpr (h _ ‹_›)

theorem failsWith_readIncludes {item : List String → Json → Reading (Include Query)}
    {seen : List String} {i : Nat} {items : List Json} (h : ∀ seen k raw, items[k]? = some raw →
      FailsWith (fun f => P ⟨.index (i + k) :: f.path, f.defect⟩) (item seen raw)) :
    FailsWith P (readIncludes item seen i items) := by
  induction items generalizing seen i with
  | nil => exact failsWith_ok []
  | cons raw items ih =>
    simp only [readIncludes, failsWith_bind]
    refine ⟨failsWith_under.mpr (h seen 0 raw rfl), fun one _ => ⟨ih fun seen k raw hraw => ?_, ?_⟩⟩
    · have hk := h seen (k + 1) raw hraw
      rwa [show i + (k + 1) = i + 1 + k by omega] at hk
    · exact fun _ _ => failsWith_pure _

end Steps

/-- The defects in the form of a value, as opposed to those in a name or in how deep it nests. -/
def Defect.isOfForm (d : Defect) : Bool :=
  match d.reason with
  | .malformed | .invalidValue | .invalidPagination => true
  | _ => false

/-- A fault in the form of a value, at a place of the value. -/
def Fault.InFormOf (raw : Json) (f : Fault) : Prop :=
  raw.HasPlace f.path ∧ f.defect.isOfForm = true

section Forms

variable {α : Type} {members : List (String × Json)} {key : String} {r : Reading α}

theorem inFormOf_fault {raw : Json} {d : Defect} (h : d.isOfForm = true) :
    FailsWith (Fault.InFormOf raw) (fault d : Reading α) :=
  failsWith_fault.mpr ⟨Json.hasPlace_nil, h⟩

/-- A member is read where it stands, and where it is sought and missing, in its place, as null. -/
theorem inFormOf_member (hkey : key ∈ Json.soughtKeys)
    (h : FailsWith (Fault.InFormOf ((Table.get? members key).getD .null)) r) :
    FailsWith (Fault.InFormOf (.obj members)) (under (.key key) r) := by
  rw [failsWith_under]
  refine h.mono fun f hf => ⟨?_, hf.2⟩
  cases hmember : Table.get? members key with
  | none =>
    rw [hmember] at hf
    rw [hf.1.eq_nil]
    exact .missing Json.at?_nil hkey hmember
  | some part =>
    rw [hmember] at hf
    exact .member hmember hf.1

theorem inFormOf_readOptional {missing : α} {read : Json → Reading α}
    (h : ∀ raw, FailsWith (Fault.InFormOf raw) (read raw)) :
    FailsWith (Fault.InFormOf (.obj members)) (readOptional key members missing read) := by
  exact failsWith_readOptional fun raw hraw => (h raw).mono fun f hf => ⟨.member hraw hf.1, hf.2⟩

theorem inFormOf_readItems {items : List Json} {read : Json → Reading α}
    (h : ∀ item, FailsWith (Fault.InFormOf item) (read item)) :
    FailsWith (Fault.InFormOf (.arr items)) (readItems read 0 items) := by
  refine failsWith_readItems fun k item hitem => (h item).mono fun f hf => ⟨?_, hf.2⟩
  rw [Nat.zero_add]
  exact .item hitem hf.1

theorem inFormOf_expectKeys (expected : List String) (members : List (String × Json)) :
    FailsWith (Fault.InFormOf (.obj members)) (expectKeys expected members) := by
  suffices hfront : ∀ rest, (∀ p ∈ rest, ∃ part, Table.get? members p.1 = some part) →
      FailsWith (Fault.InFormOf (.obj members)) (expectKeys expected rest) by
    refine hfront members fun p hp => Option.ne_none_iff_exists'.mp fun hnone => ?_
    exact Table.get?_eq_none_iff.mp hnone (List.mem_map_of_mem hp)
  intro rest hrest
  induction rest with
  | nil => exact failsWith_ok ()
  | cons p rest ih =>
    obtain ⟨⟨part, hpart⟩, hrest⟩ := List.forall_mem_cons.mp hrest
    rw [expectKeys]
    split
    · exact ih hrest
    · exact failsWith_under.mpr (failsWith_fault.mpr ⟨Json.hasPlace_key hpart, rfl⟩)

end Forms

section Readers

variable {raw : Json}

theorem inFormOf_readScalar (type : FieldType) : FailsWith (Fault.InFormOf raw)
    (readScalar type raw) := by
  unfold readScalar
  split
  · exact failsWith_ok _
  · exact inFormOf_fault rfl

theorem inFormOf_readIs (f : FieldDecl) : FailsWith (Fault.InFormOf raw) (readIs f raw) := by
  unfold readIs
  split
  · split
    · exact failsWith_ok _
    · exact inFormOf_fault rfl
  · split
    · exact failsWith_ok _
    · exact inFormOf_fault rfl
  · exact inFormOf_fault rfl

theorem inFormOf_readOperand (f : FieldDecl) (op : Operator) :
    FailsWith (Fault.InFormOf raw) (readOperand f op raw) := by
  unfold readOperand
  split
  · exact inFormOf_readIs f
  · unfold readList
    split
    · exact inFormOf_fault rfl
    · exact failsWith_map.mpr (inFormOf_readItems fun _ => inFormOf_readScalar f.type)
    · exact inFormOf_fault rfl
  · unfold readSingle
    split
    · exact inFormOf_fault rfl
    · exact failsWith_map.mpr (inFormOf_readScalar f.type)

theorem inFormOf_readDirection (written : String) :
    FailsWith (Fault.InFormOf raw) (readDirection written) := by
  unfold readDirection
  split
  · exact failsWith_ok _
  · exact failsWith_ok _
  · exact inFormOf_fault rfl

theorem inFormOf_readCount : FailsWith (Fault.InFormOf raw) (readCount raw) := by
  unfold readCount
  dsimp only
  split
  · exact inFormOf_fault rfl
  · split
    · exact failsWith_ok _
    · exact inFormOf_fault rfl

theorem inFormOf_readLimit (maximum : UInt64) :
    FailsWith (Fault.InFormOf raw) (readLimit maximum raw) := by
  rw [readLimit, failsWith_bind]
  refine ⟨inFormOf_readCount, fun n _ => ?_⟩
  split
  · exact failsWith_pure n
  · exact inFormOf_fault rfl

theorem inFormOf_readCursor (offset : Option UInt64) :
    FailsWith (Fault.InFormOf raw) (readCursor offset raw) := by
  unfold readCursor
  split
  · split
    · exact inFormOf_fault rfl
    · exact failsWith_ok _
  · exact inFormOf_fault rfl

theorem inFormOf_readPage (maximum : UInt64) :
    FailsWith (Fault.InFormOf raw) (readPage maximum raw) := by
  unfold readPage
  split
  · simp only [failsWith_bind]
    refine ⟨inFormOf_expectKeys _ _, fun _ _ => ⟨?_, fun limit _ => ⟨?_, fun offset _ => ⟨?_, ?_⟩⟩⟩⟩
    · exact inFormOf_readOptional fun raw => failsWith_map.mpr (inFormOf_readLimit maximum)
    · exact inFormOf_readOptional fun raw => failsWith_map.mpr inFormOf_readCount
    · exact inFormOf_readOptional fun raw => failsWith_map.mpr (inFormOf_readCursor offset)
    · exact fun cursor _ => failsWith_pure _
  · exact inFormOf_fault rfl

end Readers

end RowPolicy
