import RowPolicy.Proofs.SealedSchema

/-!
Schemas in the order in which they come about. Models may be registered before those that they
refer to, attempts may fail in between, and a failed seal leaves some fields settled. Main
statement: none of this shows once the schema is sealed. Whether it can be sealed and what is then
found in it hangs on the declared models alone.
-/
namespace RowPolicy

/-- What a declaration says about other models holds among some declarations, and no field asks for
operators that its type does not have. -/
structure ModelDecl.HoldsAmong (d : ModelDecl) (ds : List ModelDecl) : Prop where
  target : ∀ r ∈ d.relations, ∃ c ∈ ds, c.name = r.target
  through : ∀ r ∈ d.relations, ∀ through, r.through = some through →
    ∃ c ∈ ds, c.name = through ∧ ∃ j, c.junction = some j ∧
      (j.left = d.name ∧ j.right = r.target ∨ j.left = r.target ∧ j.right = d.name)
  sides : ∀ j, d.junction = some j →
    (∃ c ∈ ds, c.name = j.left) ∧ ∃ c ∈ ds, c.name = j.right
  narrows : ∀ f ∈ d.fields, f.Narrows

theorem holdsAmong_congr {ds es : List ModelDecl} (h : ds.Perm es) :
    (∀ d ∈ ds, d.HoldsAmong ds) ↔ ∀ d ∈ es, d.HoldsAmong es := by
  have hsame (d : ModelDecl) : d.HoldsAmong ds ↔ d.HoldsAmong es := by
    constructor
    · rintro ⟨target, through, sides, narrows⟩
      simp only [h.mem_iff] at target through sides
      exact ⟨target, through, sides, narrows⟩
    · rintro ⟨target, through, sides, narrows⟩
      simp only [← h.mem_iff] at target through sides
      exact ⟨target, through, sides, narrows⟩
  simp only [h.mem_iff, hsame]

theorem Model.settle_eq (m : Model) : m.settle = (Model.ofDecl m.decl).settle := by
  simp [settle, ofDecl, decl, Field.settle, Function.comp_def]

theorem find?_name_eq_of_perm {α : Type} {name : α → String} {xs ys : List α} (h : xs.Perm ys)
    (hdistinct : (xs.map name).Nodup) (n : String) :
    xs.find? (name · == n) = ys.find? (name · == n) := by
  have hdistinct' : (ys.map name).Nodup := (h.map name).nodup_iff.mp hdistinct
  apply Option.ext
  intro x
  rw [find?_name_eq_some_iff hdistinct, find?_name_eq_some_iff hdistinct', h.mem_iff]

namespace Schema

variable {s t : Schema} {ds es : List ModelDecl} {d : ModelDecl} {c : Call} {m : Model}

def Call.result (s : Schema) : Call → Except Error Unit
  | register d => (s.register d).map fun _ => ()
  | sealUp => s.sealUp.1

/-- The schema comes from registering some models in this order. In between any calls may have
failed, and the models may have been put in another order: sealing is to look through them in
whatever order it meets them. -/
inductive ComesFrom : List ModelDecl → Schema → Prop
  | start : ComesFrom [] {}
  | registered {ds : List ModelDecl} {s : Schema} (d : ModelDecl) (h : ComesFrom ds s)
    (hok : (Call.register d).result s = .ok ()) : ComesFrom (ds ++ [d]) ((Call.register d).after s)
  | failed {ds : List ModelDecl} {s : Schema} (c : Call) (e : Error) (h : ComesFrom ds s)
    (hfailed : c.result s = .error e) : ComesFrom ds (c.after s)
  | reordered {ds : List ModelDecl} {s : Schema} {models : List Model} (h : ComesFrom ds s)
    (hperm : s.models.Perm models) : ComesFrom ds { s with models }

section Calls

variable {e : Error}

theorem register_of_result (h : (Call.register d).result s = .ok ()) :
    s.register d = .ok ((Call.register d).after s) := by
  cases hregister : s.register d with
  | ok t => simp [Call.after, hregister]
  | error e => simp [Call.result, hregister, Except.map] at h

theorem after_register_of_error (h : (Call.register d).result s = .error e) :
    (Call.register d).after s = s := by
  cases hregister : s.register d with
  | ok t => simp [Call.result, hregister, Except.map] at h
  | error e => simp [Call.after, hregister]

theorem isSealed_of_failed (hopen : s.isSealed = false) (h : c.result s = .error e) :
    (c.after s).isSealed = false := by
  cases c with
  | register d =>
    rw [after_register_of_error h]
    exact hopen
  | sealUp =>
    have hfailed : s.sealUp.1 = .error e := h
    rcases sealUp_cases hopen with ⟨-, hleft⟩ | ⟨-, hseal⟩
    · exact hleft
    · rw [hseal] at hfailed
      cases hfailed

theorem declared_of_failed (h : c.result s = .error e) : (c.after s).declared = s.declared := by
  cases c with
  | register d => rw [after_register_of_error h]
  | sealUp => exact declared_sealUp s

theorem sealUp_of_sound (hopen : s.isSealed = false)
    (h : ∀ m ∈ s.models, m.Linked s ∧ m.Narrows) :
    s.sealUp = (.ok (), ⟨s.models.map Model.settle, true⟩) := by
  have hlinked : s.models.findSome? s.modelDefect? = none :=
    List.findSome?_eq_none_iff.mpr fun m hm => modelDefect?_eq_none_iff.mpr (h m hm).1
  have hsettled := settleModels_of_narrows fun m hm => (h m hm).2
  simp [sealUp, hopen, hlinked, hsettled]

theorem sealUp_eq_ok_iff (hopen : s.isSealed = false) :
    s.sealUp.1 = .ok () ↔ ∀ m ∈ s.models, m.Linked s ∧ m.Narrows := by
  constructor
  · intro hok
    rcases sealUp_cases hopen with ⟨⟨e, he⟩, -⟩ | ⟨hsound, -⟩
    · rw [he] at hok
      cases hok
    · intro m hm
      exact ⟨modelDefect?_eq_none_iff.mp (hsound m hm).1, (hsound m hm).2⟩
  · intro h
    rw [sealUp_of_sound hopen h]

end Calls

section Declared

theorem WellFormed.nodup_models (h : s.WellFormed) : (s.models.map (·.name)).Nodup := by
  have hunique := h.unique
  rwa [declared, List.map_map] at hunique

theorem contains_iff_declared {name : String} :
    s.contains name = true ↔ ∃ c ∈ s.declared, c.name = name := by
  rw [← name_mem_declared_iff, List.mem_map]

theorem exists_model?_iff (h : s.WellFormed) {name : String} {P : Option Junction → Prop} :
    (∃ n, s.model? name = some n ∧ P n.junction) ↔
      ∃ c ∈ s.declared, c.name = name ∧ P c.junction := by
  simp only [model?, find?_name_eq_some_iff h.nodup_models, declared, List.mem_map]
  constructor
  · rintro ⟨n, ⟨hn, hname⟩, hp⟩
    exact ⟨n.decl, ⟨n, hn, rfl⟩, hname, hp⟩
  · rintro ⟨c, ⟨n, hn, rfl⟩, hname, hp⟩
    exact ⟨n, ⟨hn, hname⟩, hp⟩

theorem sound_iff_holdsAmong (h : s.WellFormed) (m : Model) :
    m.Linked s ∧ m.Narrows ↔ m.decl.HoldsAmong s.declared := by
  have hjunction (r : Relation) (through : String) :
      (∃ n j, s.model? through = some n ∧ n.junction = some j ∧
        (j.left = m.name ∧ j.right = r.target ∨ j.left = r.target ∧ j.right = m.name)) ↔
      ∃ c ∈ s.declared, c.name = through ∧ ∃ j, c.junction = some j ∧
        (j.left = m.name ∧ j.right = r.target ∨ j.left = r.target ∧ j.right = m.name) := by
    simp only [exists_and_left]
    exact exists_model?_iff h (P := fun junction => ∃ j, junction = some j ∧
      (j.left = m.name ∧ j.right = r.target ∨ j.left = r.target ∧ j.right = m.name))
  have hnarrows : m.Narrows ↔ ∀ f ∈ m.decl.fields, f.Narrows := List.forall_mem_map.symm
  rw [hnarrows]
  constructor
  · rintro ⟨⟨target, through, sides⟩, narrows⟩
    simp only [contains_iff_declared, hjunction] at target through sides
    exact ⟨target, through, sides, narrows⟩
  · rintro ⟨target, through, sides, narrows⟩
    refine ⟨⟨?_, ?_, ?_⟩, narrows⟩
    · simp only [contains_iff_declared]
      exact target
    · simp only [hjunction]
      exact through
    · simp only [contains_iff_declared]
      exact sides

end Declared

namespace ComesFrom

/-- The schema is open and well-formed, and its models are those that were registered. -/
theorem invariant (h : ComesFrom ds s) :
    s.isSealed = false ∧ s.WellFormed ∧ s.declared.Perm ds := by
  induction h with
  | start => exact ⟨rfl, wellFormed_empty, .refl _⟩
  | @registered ds s d h hok ih =>
    obtain ⟨-, hwellFormed, hperm⟩ := ih
    have hregister := register_of_result hok
    have haccepted : (Call.register d).accepted? s = some d := by
      simp [Call.accepted?, hregister, Except.toOption]
    have hdeclared := declared_after s (.register d)
    rw [haccepted, Option.toList_some] at hdeclared
    refine ⟨isSealed_of_register hregister, wellFormed_after hwellFormed _, ?_⟩
    rw [hdeclared]
    exact hperm.append_right [d]
  | @failed ds s c e h hfailed ih =>
    obtain ⟨hopen, hwellFormed, hperm⟩ := ih
    refine ⟨isSealed_of_failed hopen hfailed, wellFormed_after hwellFormed c, ?_⟩
    rwa [declared_of_failed hfailed]
  | @reordered ds s models h hperm ih =>
    obtain ⟨hopen, hwellFormed, hdeclared⟩ := ih
    have hsame : (declared { s with models }).Perm s.declared := (hperm.map Model.decl).symm
    refine ⟨hopen, ⟨?_, ?_, ?_⟩, hsame.trans hdeclared⟩
    · exact (hsame.map _).nodup_iff.mpr hwellFormed.unique
    · exact fun d hd => hwellFormed.distinct d (hsame.mem_iff.mp hd)
    · intro hsealed
      rw [hopen] at hsealed
      cases hsealed

theorem sealUp_eq_ok_iff (h : ComesFrom ds s) :
    s.sealUp.1 = .ok () ↔ ∀ d ∈ ds, d.HoldsAmong ds := by
  obtain ⟨hopen, hwellFormed, hperm⟩ := h.invariant
  have hsound : (∀ m ∈ s.models, m.Linked s ∧ m.Narrows) ↔
      ∀ d ∈ s.declared, d.HoldsAmong s.declared := by
    simp only [sound_iff_holdsAmong hwellFormed, declared, List.forall_mem_map]
  rw [Schema.sealUp_eq_ok_iff hopen, hsound]
  exact holdsAmong_congr hperm

theorem model?_sealUp (h : ComesFrom ds s) (hok : s.sealUp.1 = .ok ()) (name : String) :
    s.sealUp.2.model? name =
      (ds.find? (·.name == name)).map fun d => (Model.ofDecl d).settle := by
  obtain ⟨hopen, hwellFormed, hperm⟩ := h.invariant
  have hfound : ds.find? (·.name == name) = (s.model? name).map Model.decl := by
    rw [← find?_name_eq_of_perm hperm hwellFormed.unique, declared, List.find?_map]
    rfl
  rw [sealUp_of_sound hopen ((Schema.sealUp_eq_ok_iff hopen).mp hok), model?_settle, hfound,
    Option.map_map]
  congr 1
  funext m
  exact m.settle_eq

end ComesFrom

theorem ComesFrom.after (h : ComesFrom ds s) (c : Call) (hopen : (c.after s).isSealed = false) :
    ComesFrom (ds ++ (c.accepted? s).toList) (c.after s) := by
  cases hresult : c.result s with
  | ok =>
    cases c with
    | register d =>
      have haccepted : (Call.register d).accepted? s = some d := by
        simp [Call.accepted?, register_of_result hresult, Except.toOption]
      rw [haccepted]
      exact .registered d h hresult
    | sealUp =>
      have hsealed : (Call.sealUp.after s).isSealed = true := isSealed_of_sealUp hresult
      rw [hopen] at hsealed
      cases hsealed
  | error e =>
    have hnone : c.accepted? s = none := by
      cases c with
      | register d =>
        cases hregister : s.register d with
        | ok t => simp [Call.result, hregister, Except.map] at hresult
        | error e => simp [Call.accepted?, hregister, Except.toOption]
      | sealUp => rfl
    rw [hnone, Option.toList_none, List.append_nil]
    exact .failed c e h hresult

theorem ComesFrom.run (h : ComesFrom ds s) {calls : List Call}
    (hopen : (s.run calls).isSealed = false) :
    ComesFrom (ds ++ accepted s calls) (s.run calls) := by
  induction calls generalizing ds s with
  | nil => simpa [accepted, Schema.run] using h
  | cons c calls ih =>
    have hafter : (c.after s).isSealed = false := by
      by_contra hsealed
      have hrun : s.run (c :: calls) = c.after s :=
        run_of_isSealed (Bool.not_eq_false _ ▸ hsealed) calls
      rw [hrun] at hopen
      exact hsealed hopen
    have hrest := ih (h.after c hafter) hopen
    rwa [List.append_assoc] at hrest

/-- Schemas that come from the same models, registered in any order, with any attempts that fail in
between, can be sealed alike, namely when everything holds that the models declare. Then the same is
found under every name, each model as it was declared. -/
theorem sealUp_of_perm (hs : ComesFrom ds s) (ht : ComesFrom es t) (h : ds.Perm es) :
    (s.sealUp.1 = .ok () ↔ t.sealUp.1 = .ok ()) ∧
      (s.sealUp.1 = .ok () ↔ ∀ d ∈ ds, d.HoldsAmong ds) ∧
      (s.sealUp.1 = .ok () → ∀ name, s.sealUp.2.model? name = t.sealUp.2.model? name ∧
        s.sealUp.2.model? name =
          (ds.find? (·.name == name)).map fun d => (Model.ofDecl d).settle) := by
  have halike : s.sealUp.1 = .ok () ↔ t.sealUp.1 = .ok () := by
    rw [hs.sealUp_eq_ok_iff, ht.sealUp_eq_ok_iff, holdsAmong_congr h]
  refine ⟨halike, hs.sealUp_eq_ok_iff, fun hok name => ?_⟩
  have hfound := hs.model?_sealUp hok name
  obtain ⟨-, hwellFormed, hperm⟩ := hs.invariant
  have hdistinct : (ds.map (·.name)).Nodup := (hperm.map _).nodup_iff.mp hwellFormed.unique
  refine ⟨?_, hfound⟩
  rw [hfound, ht.model?_sealUp (halike.mp hok) name, find?_name_eq_of_perm h hdistinct]

/-- The models of the shop in reverse, with a seal that fails and a second registration of tags. -/
def backwardCalls : List Call :=
  shopModels.reverse.flatMap fun d =>
    if d.name = "tag" then [.sealUp, .register d, .register d] else [.register d]

/-- Whether the orders come before the junction that they refer to or behind it, they are sealed
with it. -/
theorem backwardCalls_sealUp :
    let s := run {} hastyCalls.dropLast.dropLast
    let t := run {} backwardCalls
    ComesFrom shopModels s ∧ ComesFrom shopModels.reverse t ∧ t.sealUp.1 = .ok () ∧
      s.sealUp.2.model? "order" = t.sealUp.2.model? "order" ∧
      (t.sealUp.2.model? "order").isSome = true := by
  intro s t
  have hs : ComesFrom shopModels s := ComesFrom.start.run (show s.isSealed = false from rfl)
  have ht : ComesFrom shopModels.reverse t :=
    ComesFrom.start.run (show t.isSealed = false from rfl)
  have hperm : shopModels.Perm shopModels.reverse := (List.reverse_perm shopModels).symm
  obtain ⟨halike, -, hfound⟩ := sealUp_of_perm hs ht hperm
  have hok : s.sealUp.1 = .ok () := by rfl
  exact ⟨hs, ht, halike.mp hok, (hfound hok "order").1, by rfl⟩

end Schema
end RowPolicy
