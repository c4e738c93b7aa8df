import RowPolicy.Proofs.SealedSchema

/-!
What a failed seal leaves behind. Sealing checks the links between all models before it settles the
operators of fields, one field after the other. Main statement: a schema that cannot be sealed stays
open with all that was declared, and nothing changes if a link is at fault; but if a field asks for
operators that its type does not have, the fields in front of it are settled and stay so.
-/
namespace RowPolicy

namespace Schema

/-- The fields of some models, each with the name of its model, in the order in which they are
settled. -/
def placedFields (models : List Model) : List (String × Field) :=
  models.flatMap fun m => m.fields.map (m.name, ·)

/-- Settling stopped at a field: it asks for operators that its type does not have, the fields in
front of it do not and are settled, and those behind it are as they were. -/
structure StopsAt (fields left before after : List (String × Field)) (model : String)
    (f : Field) : Prop where
  fields_eq : fields = before ++ (model, f) :: after
  left_eq : left = before.map (fun p => (p.1, p.2.settle)) ++ (model, f) :: after
  narrows : ∀ p ∈ before, p.2.decl.Narrows
  fault : ¬f.decl.Narrows

variable {fields left before after : List (String × Field)} {model : String} {f : Field}

theorem StopsAt.append (h : StopsAt fields left before after model f)
    {front : List (String × Field)} (hfront : ∀ p ∈ front, p.2.decl.Narrows) :
    StopsAt (front ++ fields) (front.map (fun p => (p.1, p.2.settle)) ++ left) (front ++ before)
      after model f where
  fields_eq := by rw [h.fields_eq, List.append_assoc]
  left_eq := by rw [h.left_eq, List.map_append, List.append_assoc]
  narrows := List.forall_mem_append.mpr ⟨hfront, h.narrows⟩
  fault := h.fault

theorem StopsAt.append_right (h : StopsAt fields left before after model f)
    (back : List (String × Field)) :
    StopsAt (fields ++ back) (left ++ back) before (after ++ back) model f where
  fields_eq := by rw [h.fields_eq, List.append_assoc, List.cons_append]
  left_eq := by rw [h.left_eq, List.append_assoc, List.cons_append]
  narrows := h.narrows
  fault := h.fault

theorem StopsAt.left_eq_fields_iff (h : StopsAt fields left before after model f) :
    left = fields ↔ ∀ p ∈ before, p.2.settle = p.2 := by
  rw [h.left_eq, h.fields_eq, List.append_left_inj]
  constructor
  · intro heq p hp
    have hmap : before.map (fun p => (p.1, p.2.settle)) = before.map id := by simpa using heq
    have hpair := List.map_inj_left.mp hmap p hp
    exact congrArg Prod.snd hpair
  · intro hsettled
    have hmap : before.map (fun p => (p.1, p.2.settle)) = before.map id := by
      apply List.map_congr_left
      intro p hp
      rw [hsettled p hp]
      rfl
    rw [hmap, List.map_id]

theorem stopsAt_of_settleFields {fields left : List Field} {defect : SchemaDefect}
    (h : settleFields model fields = (left, some defect)) :
    ∃ before after f, defect = .foreignOperators model f.decl.name f.decl.type ∧
      StopsAt (fields.map (model, ·)) (left.map (model, ·)) before after model f := by
  induction fields generalizing left with
  | nil => cases h
  | cons g fields ih =>
    rw [settleFields, settleField_eq] at h
    by_cases hg : g.decl.Narrows
    · rw [if_pos hg] at h
      -- The defect is one of the fields behind.
      have hrest : settleFields model fields = ((settleFields model fields).1, some defect) := by
        have hdefect : (settleFields model fields).2 = some defect := congrArg Prod.snd h
        rw [← hdefect]
      have hleft : g.settle :: (settleFields model fields).1 = left := congrArg Prod.fst h
      obtain ⟨before, after, f, hdefect, hstops⟩ := ih hrest
      have hfront : ∀ p ∈ [(model, g)], p.2.decl.Narrows := by simpa using hg
      refine ⟨(model, g) :: before, after, f, hdefect, ?_⟩
      rw [← hleft]
      exact hstops.append hfront
    · rw [if_neg hg] at h
      cases h
      exact ⟨[], fields.map (model, ·), g, rfl, rfl, rfl, List.forall_mem_nil _, hg⟩

theorem placedFields_settle (m : Model) :
    m.settle.fields.map (m.settle.name, ·) =
      (m.fields.map (m.name, ·)).map fun p => (p.1, p.2.settle) := by
  simp [Model.settle]

theorem stopsAt_of_settleModels {models left : List Model} {defect : SchemaDefect}
    (h : settleModels models = (left, some defect)) :
    ∃ before after model f, defect = .foreignOperators model f.decl.name f.decl.type ∧
      StopsAt (placedFields models) (placedFields left) before after model f := by
  induction models generalizing left with
  | nil => cases h
  | cons m models ih =>
    rw [settleModels] at h
    split at h
    · rename_i fields defect' hfields
      cases h
      obtain ⟨before, after, f, hdefect, hstops⟩ := stopsAt_of_settleFields hfields
      exact ⟨before, _, m.name, f, hdefect, hstops.append_right (placedFields models)⟩
    · rename_i fields hfields
      have hm : m.Narrows := narrows_of_settleFields (congrArg Prod.snd hfields)
      have hsettled : fields = m.fields.map Field.settle := by
        have hfields' := hfields.symm.trans (settleFields_of_narrows hm m.name)
        exact congrArg Prod.fst hfields'
      have hrest : settleModels models = ((settleModels models).1, some defect) := by
        have hdefect : (settleModels models).2 = some defect := congrArg Prod.snd h
        rw [← hdefect]
      have hleft : m.settle :: (settleModels models).1 = left := by
        rw [Model.settle, ← hsettled]
        exact congrArg Prod.fst h
      obtain ⟨before, after, model, f, hdefect, hstops⟩ := ih hrest
      have hfront : ∀ p ∈ m.fields.map (m.name, ·), p.2.decl.Narrows := by
        intro p hp
        obtain ⟨g, hg, rfl⟩ := List.mem_map.mp hp
        exact hm g hg
      refine ⟨m.fields.map (m.name, ·) ++ before, after, model, f, hdefect, ?_⟩
      rw [← hleft, placedFields, List.flatMap_cons, placedFields, List.flatMap_cons,
        placedFields_settle]
      exact hstops.append hfront

theorem eq_of_placedFields_eq {models others : List Model}
    (hdeclared : models.map Model.decl = others.map Model.decl)
    (hfields : placedFields models = placedFields others) : models = others := by
  induction models generalizing others with
  | nil => simpa using hdeclared.symm
  | cons m models ih =>
    cases others with
    | nil => simp at hdeclared
    | cons n others =>
      obtain ⟨hdecl, hrest⟩ := List.cons.inj hdeclared
      have hname : m.name = n.name := congrArg ModelDecl.name hdecl
      have hlength : m.fields.length = n.fields.length := by
        simpa [Model.decl] using congrArg (fun d => d.fields.length) hdecl
      have happend : m.fields.map (m.name, ·) ++ placedFields models =
          n.fields.map (n.name, ·) ++ placedFields others := hfields
      obtain ⟨hfront, hback⟩ := List.append_inj happend (by simpa using hlength)
      have hown : m.fields = n.fields := by
        simpa [Function.comp_def] using congrArg (List.map Prod.snd) hfront
      have hm : m = n := by
        cases m
        cases n
        simp_all [Model.decl]
      rw [hm, ih hrest hback]

variable {s : Schema} {e : Error}

theorem sealUp_of_unlinked (hopen : s.isSealed = false) (h : ∃ m ∈ s.models, ¬m.Linked s) :
    s.sealUp.2 = s := by
  obtain ⟨m, hm, hunlinked⟩ := h
  have hdefect : s.models.findSome? s.modelDefect? ≠ none := by
    intro hnone
    have hsound := List.findSome?_eq_none_iff.mp hnone m hm
    exact hunlinked (modelDefect?_eq_none_iff.mp hsound)
  obtain ⟨defect, hfound⟩ := Option.ne_none_iff_exists'.mp hdefect
  simp [sealUp, hopen, hfound]

theorem stopsAt_of_sealUp (hopen : s.isSealed = false) (hlinked : ∀ m ∈ s.models, m.Linked s)
    (h : s.sealUp.1 = .error e) :
    ∃ before after model f,
      e = (SchemaDefect.foreignOperators model f.decl.name f.decl.type).error ∧
        StopsAt (placedFields s.models) (placedFields s.sealUp.2.models) before after model f := by
  have hnone : s.models.findSome? s.modelDefect? = none :=
    List.findSome?_eq_none_iff.mpr fun m hm => modelDefect?_eq_none_iff.mpr (hlinked m hm)
  cases hsettle : settleModels s.models with
  | mk left result =>
    cases result with
    | none => simp [sealUp, hopen, hnone, hsettle] at h
    | some defect =>
      have hseal : s.sealUp = (.error defect.error, { s with models := left }) := by
        simp [sealUp, hopen, hnone, hsettle]
      rw [hseal] at h ⊢
      cases h
      obtain ⟨before, after, model, f, rfl, hstops⟩ := stopsAt_of_settleModels hsettle
      exact ⟨before, after, model, f, rfl, hstops⟩

/-- A failed seal leaves the schema open with all that was declared. If models are not linked as
they say, nothing changes. Otherwise a field asks for too much, and those in front of it permit what
they ask for from now on; so nothing changes only if they did so before. -/
theorem sealUp_of_error (h : s.sealUp.1 = .error e) :
    s.isSealed = false ∧ s.sealUp.2.isSealed = false ∧ s.sealUp.2.declared = s.declared ∧
      ((∃ m ∈ s.models, ¬m.Linked s) → s.sealUp.2 = s) ∧
      ((∀ m ∈ s.models, m.Linked s) → ∃ before after model f,
        e = (SchemaDefect.foreignOperators model f.decl.name f.decl.type).error ∧
          StopsAt (placedFields s.models) (placedFields s.sealUp.2.models) before after model f ∧
          (s.sealUp.2 = s ↔ ∀ p ∈ before, p.2.settle = p.2)) := by
  have hopen : s.isSealed = false := by
    by_contra hsealed
    rw [sealUp_of_isSealed (by simpa using hsealed)] at h
    cases h
  have hopen' : s.sealUp.2.isSealed = false := by
    rcases sealUp_cases hopen with ⟨-, hleft⟩ | ⟨-, hseal⟩
    · exact hleft
    · rw [hseal] at h
      cases h
  have hdeclared := declared_sealUp s
  refine ⟨hopen, hopen', hdeclared, sealUp_of_unlinked hopen, fun hlinked => ?_⟩
  obtain ⟨before, after, model, f, he, hstops⟩ := stopsAt_of_sealUp hopen hlinked h
  refine ⟨before, after, model, f, he, hstops, ?_⟩
  rw [← hstops.left_eq_fields_iff]
  constructor
  · intro hsame
    rw [hsame]
  · intro hfields
    have hmodels : s.sealUp.2.models = s.models := eq_of_placedFields_eq hdeclared hfields
    have hflag : s.sealUp.2.isSealed = s.isSealed := hopen'.trans hopen.symm
    cases hleft : s.sealUp.2
    cases s
    simp_all

/-- Notes whose mark, behind the text, asks for an operator of texts. -/
def markedNote : ModelDecl where
  name := "note"
  fields := [{ name := "text", type := .text },
    { name := "marked", type := .boolean, operators := some [.like] }]

def openNotes : Schema := run {} [.register markedNote]

theorem sealUp_openNotes_ne : openNotes.sealUp.2 ≠ openNotes := by
  intro hsame
  have hmodels : openNotes.sealUp.2.models ≠ openNotes.models := by decide +kernel
  exact hmodels (congrArg Schema.models hsame)

/-- The text is settled when the mark cannot be, and it was not before. -/
theorem openNotes_stopsAt :
    openNotes.sealUp.1 = .error (SchemaDefect.foreignOperators "note" "marked" .boolean).error ∧
      openNotes.sealUp.2.isSealed = false ∧ openNotes.sealUp.2.declared = [markedNote] ∧
      ∃ before after model f, (∃ p ∈ before, p.2.settle ≠ p.2) ∧
        StopsAt (placedFields openNotes.models) (placedFields openNotes.sealUp.2.models) before
          after model f := by
  have hfailed : openNotes.sealUp.1 =
      .error (SchemaDefect.foreignOperators "note" "marked" .boolean).error := by rfl
  obtain ⟨-, hopen, hdeclared, -, hsettled⟩ := sealUp_of_error hfailed
  have hlinked : ∀ m ∈ openNotes.models, m.Linked openNotes := by
    intro m hm
    have hmodels : openNotes.models = [.ofDecl markedNote] := by rfl
    rw [hmodels, List.mem_singleton] at hm
    subst hm
    exact ⟨nofun, nofun, nofun⟩
  obtain ⟨before, after, model, f, -, hstops, hsame⟩ := hsettled hlinked
  refine ⟨hfailed, hopen, hdeclared, before, after, model, f, ?_, hstops⟩
  by_contra hbefore
  push Not at hbefore
  exact sealUp_openNotes_ne (hsame.mpr hbefore)

/-- A seal that failed leaves the notes open, and yet a condition on their text is admitted that was
not permitted before. -/
theorem openNotes_failed_seal :
    openNotes.sealUp.1 = .error (SchemaDefect.foreignOperators "note" "marked" .boolean).error ∧
      openNotes.sealUp.2 ≠ openNotes ∧
      (placedFields openNotes.models).map (·.2.permitted.contains .like) = [false, false] ∧
      (placedFields openNotes.sealUp.2.models).map (·.2.permitted.contains .like) =
        [true, false] ∧
      let like : Filter := .leaf ⟨"text", .like, .single (.text "a%")⟩
      (∃ error, openNotes.recheck {} "note" like "" = .error error ∧
        error.reason = .operatorNotPermitted) ∧
        openNotes.sealUp.2.recheck {} "note" like "" = .ok like :=
  ⟨rfl, sealUp_openNotes_ne, rfl, rfl, ⟨_, rfl, rfl⟩, rfl⟩

end Schema
end RowPolicy
