/-
# What a store answers, from what was done with it

A store is used step after step, and may list its methods in another order each time. What it has
for an entity is what was recorded last, or else what was reserved first. What it answers by name
was settled by the first step that asked by name since the index was dropped, whatever has been
recorded or reserved since.

Key definitions: `Emission.Store.Run`, `Emission.primary`, `Emission.frozen?`,
`Emission.FirstAsked`, `Emission.NamedAlone`, `Emission.Store.Answers`.
Key theorems: `Emission.Store.get?_perform`, `Emission.Store.kept_step`,
`Emission.Store.run_answers`.
-/
import Deferral.Proofs.NameLookup

namespace Deferral
namespace Emission

/-! ### Histories -/

/-- A step with its answer. -/
structure StoreEvent where
  step : StoreStep
  answer : StoreAnswer

namespace StoreStep

/-- The methods that a step records, in order. -/
def recorded : StoreStep → List Method
  | .record signature instructions => [⟨signature, some instructions⟩]
  | .recordAll methods => methods.map fun m => ⟨m.1, some m.2⟩
  | _ => []

/-- The signatures that a step reserves. -/
def reserved : StoreStep → List Signature
  | .reserve signature => [signature]
  | _ => []

/-- The step needs the index by name. -/
def asksByName : StoreStep → Bool
  | .lookup _ => true
  | .body _ => true
  | .byName => true
  | _ => false

/-- The step drops the index by name. -/
def dropsIndex : StoreStep → Bool
  | .dropIndex => true
  | _ => false

end StoreStep

/-- The methods that were recorded for an entity, the latest first. -/
def records (entity : Nat) (past : List StoreEvent) : List Method :=
  past.flatMap fun e => e.step.recorded.reverse.filter fun m => m.signature.entity = entity

/-- The signatures that were reserved for an entity, the latest first. -/
def reservations (entity : Nat) (past : List StoreEvent) : List Signature :=
  past.flatMap fun e => e.step.reserved.filter fun signature => signature.entity = entity

/-- The method that an entity has: the one recorded last, or else the one reserved first. -/
def primary (entity : Nat) (past : List StoreEvent) : Option Method :=
  (records entity past).head?.or ((reservations entity past).getLast?.map fun signature =>
    ⟨signature, none⟩)

/-- The events since the index was dropped, the latest first. -/
def sinceDrop (past : List StoreEvent) : List StoreEvent :=
  past.takeWhile fun e => !e.step.dropsIndex

/-- What had happened when the first step since the index was dropped asked by name, if one did. -/
def frozen? : List StoreEvent → Option (List StoreEvent)
  | [] => none
  | e :: past =>
    if e.step.dropsIndex then none
    else if e.step.asksByName then some ((frozen? past).getD past)
    else frozen? past

/-- After these events came the first step that has asked by name since the index was dropped. -/
def FirstAsked (past before : List StoreEvent) : Prop :=
  ∃ later first, past = later ++ first :: before ∧ first.step.asksByName = true ∧
    (∀ e ∈ later, e.step.dropsIndex = false) ∧
    ∀ e ∈ sinceDrop before, e.step.asksByName = false

theorem FirstAsked.cons {past before : List StoreEvent} {e : StoreEvent}
    (h : FirstAsked past before) (hd : e.step.dropsIndex = false) :
    FirstAsked (e :: past) before := by
  obtain ⟨later, first, rfl, ha, hno, hnone⟩ := h
  exact ⟨e :: later, first, rfl, ha, List.forall_mem_cons.mpr ⟨hd, hno⟩, hnone⟩

/-- After these events the only method of this name has a body, and it is this one. -/
structure NamedAlone (past : List StoreEvent) (name : String) (m : Method) : Prop where
  named : m.signature.displayName = name
  emitted : m.isReserved = false
  present : ∃ entity, primary entity past = some m ∧
    ∀ entity' m', primary entity' past = some m' → m'.signature.displayName = name →
      entity' = entity

/-- What a lookup answered. -/
def StoreAnswer.method? : StoreAnswer → Option (Option Method)
  | .method m => some m
  | _ => none

/-- The step answered from this index, if it asked by name. -/
def StoreEvent.Reads (e : StoreEvent) (ix : SharedIndex String Method) : Prop :=
  match e.step with
  | .lookup name => e.answer = .method (ix.value.get? name)
  | .body name => e.answer = .body ((ix.value.get? name).bind (·.body))
  | .byName => e.answer = .index ix
  | _ => True

theorem StoreEvent.reads_of_not_asks {e : StoreEvent} (h : e.step.asksByName = false)
    (ix : SharedIndex String Method) : e.Reads ix := by
  obtain ⟨step, answer⟩ := e
  cases step with
  | lookup name => cases h
  | body name => cases h
  | byName => cases h
  | _ => trivial

namespace Store

/-- Steps one after the other on an empty store, the latest event first. Before each of them the
store may list its methods in another order. -/
inductive Run : List StoreEvent → Store → Prop
  | start : Run [] .empty
  | step {past : List StoreEvent} {s s' : Store} (h : Run past s) (hr : s.Reorders s')
      (step : StoreStep) : Run (⟨step, (s'.perform step).1⟩ :: past) (s'.perform step).2

section

variable {s s' : Store} {past : List StoreEvent} {e : StoreEvent} {entity : Nat} {m : Method}
variable {ix : SharedIndex String Method}

/-! ### The methods -/

theorem keys_putMethod (m : Method) (methods : List (Nat × Method)) :
    (putMethod m methods).map (·.1) =
      if m.signature.entity ∈ methods.map (·.1) then methods.map (·.1)
      else methods.map (·.1) ++ [m.signature.entity] := by
  induction methods with
  | nil => simp [putMethod]
  | cons e rest ih =>
    by_cases hk : e.1 = m.signature.entity
    · simp [putMethod, hk]
    · simp only [putMethod, if_neg hk, List.map_cons, ih, List.mem_cons, Ne.symm hk, false_or]
      split <;> simp

theorem lookup_putMethod (m : Method) (methods : List (Nat × Method)) (entity : Nat) :
    (putMethod m methods).lookup entity =
      if entity = m.signature.entity then some m else methods.lookup entity := by
  induction methods with
  | nil => simp [putMethod, lookup_cons_ite]
  | cons e rest ih =>
    obtain ⟨k, m'⟩ := e
    by_cases hk : k = m.signature.entity
    · subst hk
      simp only [putMethod, if_pos, lookup_cons_ite]
      split <;> rfl
    · simp only [putMethod, if_neg hk, lookup_cons_ite, ih]
      by_cases he : entity = k
      · rw [if_pos he, if_neg (he ▸ hk), if_pos he]
      · rw [if_neg he, if_neg he]

/-- Each entity has one method. -/
def Keyed (s : Store) : Prop := (s.methods.map (·.1)).Nodup

theorem Keyed.reordered (h : s.Keyed) (hr : s.Reorders s') : s'.Keyed :=
  (hr.methods.map _).nodup_iff.mpr h

theorem Keyed.record (h : s.Keyed) (signature : Signature) (body : List String) :
    (s.record signature body).Keyed := by
  unfold Keyed Store.record
  rw [keys_putMethod]
  exact nodup_keys h signature.entity

theorem Keyed.reserve (h : s.Keyed) (signature : Signature) : (s.reserve signature).Keyed := by
  unfold Store.reserve
  split
  · exact h
  · rename_i hnone
    have hnot : signature.entity ∉ s.methods.map (·.1) := by
      rw [List.mem_map]
      rintro ⟨e, he, heq⟩
      exact bne_iff_ne.mp (List.lookup_eq_none_iff.mp hnone e he) heq.symm
    have hnodup := nodup_keys h signature.entity
    rw [if_neg hnot] at hnodup
    simpa [Keyed] using hnodup

theorem Keyed.perform (h : s.Keyed) (step : StoreStep) : (s.perform step).2.Keyed := by
  cases step with
  | record signature body => exact h.record signature body
  | reserve signature => exact h.reserve signature
  | recordAll methods =>
    show (methods.foldl (fun s m => s.record m.1 m.2) s).Keyed
    induction methods generalizing s with
    | nil => exact h
    | cons m rest ih => exact ih (h.record m.1 m.2)
  | dropIndex => exact h
  | get entity => exact h
  | lookup name => exact h
  | body name => exact h
  | byName => exact h
  | single criteria => exact h

theorem Keyed.get?_reordered (h : s.Keyed) (hr : s.Reorders s') (entity : Nat) :
    s'.get? entity = s.get? entity := by
  refine Option.ext fun m => ?_
  rw [get?, get?, lookup_eq_some_iff_mem (h.reordered hr), lookup_eq_some_iff_mem h,
    hr.methods.mem_iff]

theorem get?_record (s : Store) (signature : Signature) (body : List String) (entity : Nat) :
    (s.record signature body).get? entity =
      if entity = signature.entity then some ⟨signature, some body⟩ else s.get? entity :=
  lookup_putMethod ⟨signature, some body⟩ s.methods entity

theorem get?_reserve (s : Store) (signature : Signature) (entity : Nat) :
    (s.reserve signature).get? entity =
      (s.get? entity).or (if entity = signature.entity then some ⟨signature, none⟩ else none) := by
  unfold reserve
  split
  · rename_i m hm
    split
    · simp_all
    · simp
  · simp [get?, List.lookup_append, lookup_cons_ite]

/-- What a step does to the method of an entity. -/
theorem get?_perform (s : Store) (step : StoreStep) (entity : Nat) :
    (s.perform step).2.get? entity =
      (step.recorded.reverse.filter fun m => m.signature.entity = entity).head?.or
        ((s.get? entity).or
          ((step.reserved.filter fun signature => signature.entity = entity).getLast?.map
            fun signature => ⟨signature, none⟩)) := by
  cases step with
  | record signature body =>
    rw [perform, get?_record]
    by_cases he : entity = signature.entity
    · simp [StoreStep.recorded, StoreStep.reserved, he]
    · simp [StoreStep.recorded, StoreStep.reserved, he, Ne.symm he]
  | reserve signature =>
    rw [perform, get?_reserve]
    by_cases he : entity = signature.entity
    · simp [StoreStep.recorded, StoreStep.reserved, he]
    · simp [StoreStep.recorded, StoreStep.reserved, he, Ne.symm he]
  | recordAll methods =>
    simp only [perform, StoreStep.recorded, StoreStep.reserved, List.filter_nil, List.getLast?_nil,
      Option.map_none, Option.or_none]
    induction methods using List.reverseRecOn with
    | nil => rfl
    | append_singleton methods m ih =>
      rw [List.foldl_append, List.foldl_cons, List.foldl_nil, get?_record, ih]
      by_cases he : entity = m.1.entity
      · simp [he]
      · simp [he, Ne.symm he]
  | dropIndex => simp [perform, dropIndex, get?, StoreStep.recorded, StoreStep.reserved]
  | get entity' => simp [perform, StoreStep.recorded, StoreStep.reserved]
  | lookup name =>
    show s.get? entity = _
    simp [StoreStep.recorded, StoreStep.reserved]
  | body name =>
    show s.get? entity = _
    simp [StoreStep.recorded, StoreStep.reserved]
  | byName =>
    show s.get? entity = _
    simp [StoreStep.recorded, StoreStep.reserved]
  | single criteria => simp [perform, StoreStep.recorded, StoreStep.reserved]

/-- And what an event adds to the history of an entity. -/
theorem primary_cons (e : StoreEvent) (past : List StoreEvent) (entity : Nat) :
    primary entity (e :: past) =
      (e.step.recorded.reverse.filter fun m => m.signature.entity = entity).head?.or
        ((primary entity past).or
          ((e.step.reserved.filter fun signature => signature.entity = entity).getLast?.map
            fun signature => ⟨signature, none⟩)) := by
  simp only [primary, records, reservations, List.flatMap_cons, List.head?_append,
    List.getLast?_append, Option.map_or, Option.or_assoc]

/-! ### The index by name -/

/-- A step that asks by name does nothing but get the index, and answers from it. -/
theorem perform_of_asks {step : StoreStep} (s : Store) (h : step.asksByName = true) :
    (s.perform step).2 = s.nameIndex.2 ∧
      StoreEvent.Reads ⟨step, (s.perform step).1⟩ s.nameIndex.1 := by
  cases step <;> first | exact ⟨rfl, rfl⟩ | cases h

theorem byName_perform {step : StoreStep} (s : Store) (ha : step.asksByName = false)
    (hd : step.dropsIndex = false) : (s.perform step).2.byName = s.byName := by
  cases step with
  | record signature body => rfl
  | reserve signature =>
    show (s.reserve signature).byName = s.byName
    unfold reserve
    split <;> rfl
  | recordAll methods =>
    show (methods.foldl (fun s m => s.record m.1 m.2) s).byName = s.byName
    clear ha hd
    induction methods generalizing s with
    | nil => rfl
    | cons m rest ih => exact ih (s.record m.1 m.2)
  | dropIndex => cases hd
  | get entity => rfl
  | lookup name => cases ha
  | body name => cases ha
  | byName => cases ha
  | single criteria => rfl

/-! ### What every step keeps -/

/-- What holds of the index after these events. -/
structure Indexed (past : List StoreEvent) (s : Store) : Prop where
  fresh : frozen? past = none → s.byName.isBuilt = false
  /-- It is of what there was when the first step asked, and has been asked ever since. -/
  settled : ∀ before, frozen? past = some before → ∃ ix, s.byName.built.stored = some ix ∧
    (∀ name m, ix.value.get? name = some m ↔ NamedAlone before name m) ∧
    ∀ e ∈ sinceDrop past, e.Reads ix

/-- What holds of a store after these events. -/
structure Kept (past : List StoreEvent) (s : Store) : Prop where
  keyed : s.Keyed
  contents : ∀ entity, s.get? entity = primary entity past
  index : Indexed past s

theorem kept_start : Kept [] .empty where
  keyed := List.nodup_nil
  contents _ := rfl
  index := ⟨fun _ => rfl, fun _ h => by cases h⟩

/-- Where no step has asked by name since the index was dropped, none has. -/
theorem not_asks_of_frozen? (h : frozen? past = none) :
    ∀ e ∈ sinceDrop past, e.step.asksByName = false := by
  induction past with
  | nil => simp [sinceDrop]
  | cons e past ih =>
    intro e' he'
    cases hd : e.step.dropsIndex with
    | true => simp [sinceDrop, hd] at he'
    | false =>
      cases ha : e.step.asksByName with
      | true => simp [frozen?, hd, ha] at h
      | false =>
        have h : frozen? past = none := by simpa [frozen?, hd, ha] using h
        rcases List.mem_cons.mp (show e' ∈ e :: sinceDrop past by simpa [sinceDrop, hd] using he')
          with rfl | he'
        · exact ha
        · exact ih h e' he'

/-- It is what had happened when the first step asked. -/
theorem firstAsked_of_frozen? {before : List StoreEvent} (h : frozen? past = some before) :
    FirstAsked past before := by
  induction past with
  | nil => cases h
  | cons e past ih =>
    cases hd : e.step.dropsIndex with
    | true => simp [frozen?, hd] at h
    | false =>
      cases ha : e.step.asksByName with
      | false => exact (ih (by simpa [frozen?, hd, ha] using h)).cons hd
      | true =>
        cases hf : frozen? past with
        | none =>
          obtain rfl : past = before := by simpa [frozen?, hd, ha, hf] using h
          exact ⟨[], e, rfl, ha, List.forall_mem_nil _, not_asks_of_frozen? hf⟩
        | some before' =>
          obtain rfl : before' = before := by simpa [frozen?, hd, ha, hf] using h
          exact (ih hf).cons hd

/-- An entry of the index is the only method of its name. -/
theorem named_iff_namedAlone (h : s.Keyed) (hc : ∀ entity, s.get? entity = primary entity past)
    {name : String} : (∃ entity, s.named name = [(entity, m)] ∧ m.isReserved = false) ↔
      NamedAlone past name m := by
  have hmem : ∀ entity' m', (entity', m') ∈ s.named name ↔
      primary entity' past = some m' ∧ m'.signature.displayName = name := fun entity' m' => by
    rw [named, List.mem_filter, ← lookup_eq_some_iff_mem h, ← hc, get?, decide_eq_true_iff]
  constructor
  · rintro ⟨entity, hone, hbody⟩
    obtain ⟨hm, hname⟩ := (hmem entity m).mp (by simp [hone])
    refine ⟨hname, hbody, entity, hm, fun entity' m' hm' hname' => ?_⟩
    have hmem' := (hmem entity' m').mpr ⟨hm', hname'⟩
    rw [hone, List.mem_singleton] at hmem'
    exact congrArg Prod.fst hmem'
  · rintro ⟨hname, hbody, entity, hm, halone⟩
    refine ⟨entity, List.perm_singleton.mp ?_, hbody⟩
    have hnodup : (s.named name).Nodup :=
      (List.Nodup.of_map (fun e : Nat × Method => e.1) h).filter _
    refine (List.perm_ext_iff_of_nodup hnodup (List.nodup_singleton _)).mpr ?_
    rintro ⟨entity', m'⟩
    rw [hmem, List.mem_singleton]
    constructor
    · rintro ⟨hm', hname'⟩
      obtain rfl := halone entity' m' hm' hname'
      rw [hm', Option.some.injEq] at hm
      rw [hm]
    · rintro ⟨⟩
      exact ⟨hm, hname⟩

theorem sinceDrop_cons (h : e.step.dropsIndex = false) :
    sinceDrop (e :: past) = e :: sinceDrop past := by
  simp [sinceDrop, h]

/-- After a step that neither asks by name nor drops the index, it is as it was. -/
theorem Indexed.quiet (h : Indexed past s) (ha : e.step.asksByName = false)
    (hd : e.step.dropsIndex = false) (hs : s'.byName = s.byName) : Indexed (e :: past) s' := by
  have hfrozen : frozen? (e :: past) = frozen? past := by simp [frozen?, hd, ha]
  refine ⟨fun hf => ?_, fun before hb => ?_⟩
  · rw [hs]
    exact h.fresh (hfrozen ▸ hf)
  · obtain ⟨ix, hix, hnamed, hreads⟩ := h.settled before (hfrozen ▸ hb)
    refine ⟨ix, hs ▸ hix, hnamed, fun e' he' => ?_⟩
    rcases List.mem_cons.mp (sinceDrop_cons hd ▸ he') with rfl | he'
    · exact StoreEvent.reads_of_not_asks ha ix
    · exact hreads e' he'

/-- A step that asks by name settles the index, unless it is settled. -/
theorem Indexed.asked (h : Indexed past s) (hkeyed : s.Keyed)
    (hcontents : ∀ entity, s.get? entity = primary entity past) (ha : e.step.asksByName = true)
    (hreads : e.Reads s.nameIndex.1) : Indexed (e :: past) s.nameIndex.2 := by
  have hd : e.step.dropsIndex = false := by
    obtain ⟨step, answer⟩ := e
    cases step <;> first | rfl | cases ha
  have hfrozen : frozen? (e :: past) = some ((frozen? past).getD past) := by
    simp [frozen?, hd, ha]
  refine ⟨fun hf => by simp [hfrozen] at hf, fun before hb => ?_⟩
  obtain rfl : (frozen? past).getD past = before := by simpa [hfrozen] using hb
  rw [sinceDrop_cons hd]
  cases hf : frozen? past with
  | none =>
    obtain ⟨hvalue, hstored⟩ := nameIndex_of_not_built (h.fresh hf)
    refine ⟨s.nameIndex.1, hstored, fun name m => ?_, fun e' he' => ?_⟩
    · rw [hvalue, get?_snapshot]
      exact named_iff_namedAlone hkeyed hcontents
    · rcases List.mem_cons.mp he' with rfl | he'
      · exact hreads
      · exact StoreEvent.reads_of_not_asks (not_asks_of_frozen? hf e' he') _
  | some before =>
    obtain ⟨ix, hix, hnamed, hpast⟩ := h.settled before hf
    rw [nameIndex_of_built hix] at hreads ⊢
    refine ⟨ix, hix, hnamed, fun e' he' => ?_⟩
    rcases List.mem_cons.mp he' with rfl | he'
    · exact hreads
    · exact hpast e' he'

theorem Kept.reordered (h : Kept past s) (hr : s.Reorders s') : Kept past s' where
  keyed := h.keyed.reordered hr
  contents entity := (h.keyed.get?_reordered hr entity).trans (h.contents entity)
  index := ⟨fun hf => hr.byName ▸ h.index.fresh hf, fun before hb => hr.byName ▸
    h.index.settled before hb⟩

theorem kept_step (h : Kept past s) (step : StoreStep) :
    Kept (⟨step, (s.perform step).1⟩ :: past) (s.perform step).2 where
  keyed := h.keyed.perform step
  contents entity := by rw [get?_perform, primary_cons, h.contents]
  index := by
    cases ha : step.asksByName with
    | true =>
      obtain ⟨hnow, hreads⟩ := perform_of_asks s ha
      rw [hnow]
      exact h.index.asked h.keyed h.contents ha hreads
    | false =>
      cases hd : step.dropsIndex with
      | true =>
        obtain rfl : step = .dropIndex := by cases step <;> first | rfl | cases hd
        exact ⟨fun _ => isBuilt_dropIndex s, fun _ hb => by cases hb⟩
      | false => exact h.index.quiet ha hd (byName_perform s ha hd)

theorem kept_run (h : Run past s) : Kept past s := by
  induction h with
  | start => exact kept_start
  | step _ hr step ih => exact kept_step (ih.reordered hr) step

/-! ### What the answers come to -/

/-- What a store has and has answered after these events. -/
structure Answers (past : List StoreEvent) (s : Store) : Prop where
  /-- An entity has the method that was recorded last, or else the one reserved first. -/
  primary : ∀ entity, s.get? entity = primary entity past
  /-- A lookup finds the only method of the name there was when the first step asked by name, where
  this method had a body. -/
  lookup : ∀ name answer, ⟨.lookup name, answer⟩ ∈ sinceDrop past → ∃ before found,
    FirstAsked past before ∧ answer = .method found ∧
      ∀ m, found = some m ↔ NamedAlone before name m
  /-- A body is that of the method which a lookup finds. -/
  body : ∀ name answer, ⟨.body name, answer⟩ ∈ sinceDrop past → ∃ before found,
    FirstAsked past before ∧ answer = .body (found.bind (·.body)) ∧
      ∀ m, found = some m ↔ NamedAlone before name m
  /-- There is one index. -/
  index : ∃ ix, ∀ answer, ⟨.byName, answer⟩ ∈ sinceDrop past → answer = .index ix

/-- Where a step has asked by name, the index is settled. -/
theorem Indexed.exists_of_asks (h : Indexed past s) (he : e ∈ sinceDrop past)
    (ha : e.step.asksByName = true) : ∃ before ix, FirstAsked past before ∧
      (∀ name m, ix.value.get? name = some m ↔ NamedAlone before name m) ∧
      ∀ e ∈ sinceDrop past, e.Reads ix := by
  cases hf : frozen? past with
  | none =>
    rw [not_asks_of_frozen? hf e he] at ha
    cases ha
  | some before =>
    obtain ⟨ix, -, hnamed, hreads⟩ := h.settled before hf
    exact ⟨before, ix, firstAsked_of_frozen? hf, hnamed, hreads⟩

/-- **What is answered is settled by what was done.** -/
theorem run_answers (h : Run past s) : Answers past s where
  primary := (kept_run h).contents
  lookup name answer he := by
    obtain ⟨before, ix, hb, hnamed, hreads⟩ := (kept_run h).index.exists_of_asks he rfl
    exact ⟨before, ix.value.get? name, hb, hreads _ he, hnamed name⟩
  body name answer he := by
    obtain ⟨before, ix, hb, hnamed, hreads⟩ := (kept_run h).index.exists_of_asks he rfl
    exact ⟨before, ix.value.get? name, hb, hreads _ he, hnamed name⟩
  index := by
    by_cases he : ∃ answer, ⟨.byName, answer⟩ ∈ sinceDrop past
    · obtain ⟨answer, he⟩ := he
      obtain ⟨before, ix, -, -, hreads⟩ := (kept_run h).index.exists_of_asks he rfl
      exact ⟨ix, fun answer' he' => hreads _ he'⟩
    · exact ⟨⟨0, .ofEntries []⟩, fun answer ha => absurd ⟨answer, ha⟩ he⟩

/-- The steps one after the other, with the methods in the order in which they came. -/
def performAll (steps : List StoreStep) : List StoreEvent × Store :=
  steps.foldl
    (fun r step => (⟨step, (r.2.perform step).1⟩ :: r.1, (r.2.perform step).2)) ([], empty)

theorem run_performAll (steps : List StoreStep) :
    Run (performAll steps).1 (performAll steps).2 := by
  induction steps using List.reverseRecOn with
  | nil => exact .start
  | append_singleton steps step ih =>
    rw [performAll, List.foldl_append, ← performAll]
    exact ih.step (.refl _) step

/-- A name is looked up, taken by a second method, looked up again, and once more when the index has
been dropped. -/
def takenTwice : List StoreStep :=
  [.reserve (memberOfC 1 "Stop"), .record (memberOfC 0 "Run") ["ret"], .lookup "C.Run()",
    .record (memberOfC 1 "Run") ["nop"], .lookup "C.Run()", .dropIndex, .lookup "C.Run()"]

/-- The first method is found twice, and then there are two. -/
theorem takenTwice_answers :
    Answers (performAll takenTwice).1 (performAll takenTwice).2 ∧
      (performAll takenTwice).1.filterMap (·.answer.method?) =
        [none, some ⟨memberOfC 0 "Run", some ["ret"]⟩,
          some ⟨memberOfC 0 "Run", some ["ret"]⟩] :=
  ⟨run_answers (run_performAll takenTwice), by decide⟩

end

end Store
end Emission
end Deferral
