/-
# The order of emission

Methods are emitted by several threads, in no fixed order. What is recorded for an entity takes the
place of what was there, and a reservation counts only as long as nothing is recorded, so the order
shows where two records of one entity differ, or two reservations of an entity that nothing is ever
recorded for. Otherwise all orders lead to the same methods, and to the same answers afterwards.

Key definitions: `Emission.Consistent`, `Emission.Store.SameAnswers`.
Key theorems: `Emission.primary_of_perm`, `Emission.Store.reorders_of_perm`,
`Emission.Store.Reorders.sameAnswers`, `Emission.Store.run_after_either`,
`Emission.Store.emitted_in_any_order`.
-/
import Deferral.Proofs.StoreHistory

namespace Deferral
namespace Emission

/-! ### What is emitted -/

/-- The step records or reserves. -/
def StoreStep.emits : StoreStep → Bool
  | .record _ _ => true
  | .reserve _ => true
  | .recordAll _ => true
  | _ => false

/-- What emits leaves the index by name alone. -/
theorem StoreStep.quiet_of_emits {step : StoreStep} (h : step.emits = true) :
    step.asksByName = false ∧ step.dropsIndex = false := by
  cases step with
  | record signature body => exact ⟨rfl, rfl⟩
  | reserve signature => exact ⟨rfl, rfl⟩
  | recordAll methods => exact ⟨rfl, rfl⟩
  | _ => cases h

/-- The methods that some steps record. -/
def recordedBy (steps : List StoreStep) : List Method := steps.flatMap (·.recorded)

/-- The signatures that some steps reserve. -/
def reservedBy (steps : List StoreStep) : List Signature := steps.flatMap (·.reserved)

/-- The steps emit, and do not contradict one another. -/
structure Consistent (steps : List StoreStep) : Prop where
  emits : ∀ step ∈ steps, step.emits = true
  /-- All records of an entity are the same. -/
  recorded : ∀ m ∈ recordedBy steps, ∀ m' ∈ recordedBy steps,
    m.signature.entity = m'.signature.entity → m = m'
  /-- All reservations of an entity that is never recorded are the same. -/
  reserved : ∀ x ∈ reservedBy steps, ∀ x' ∈ reservedBy steps, x.entity = x'.entity →
    (∀ m ∈ recordedBy steps, m.signature.entity ≠ x.entity) → x = x'

/-- Where all members are the same, the first one is any of them. -/
theorem head?_eq_of_mem_iff {α : Type} {l l' : List α} (hmem : ∀ a, a ∈ l ↔ a ∈ l')
    (hsame : ∀ a ∈ l, ∀ b ∈ l, a = b) : l.head? = l'.head? := by
  cases l with
  | nil =>
    have hnil : l' = [] := List.eq_nil_iff_forall_not_mem.mpr fun a ha =>
      List.not_mem_nil ((hmem a).mpr ha)
    rw [hnil]
  | cons a l =>
    cases l' with
    | nil => exact absurd ((hmem a).mp List.mem_cons_self) List.not_mem_nil
    | cons b l' =>
      have hb := (hmem b).mpr List.mem_cons_self
      rw [List.head?_cons, List.head?_cons, hsame a List.mem_cons_self b hb]

section

variable {past past' : List StoreEvent} {entity : Nat} {m : Method} {x : Signature}

theorem mem_records : m ∈ records entity past ↔
    m ∈ recordedBy (past.map (·.step)) ∧ m.signature.entity = entity := by
  simp only [records, recordedBy, List.mem_flatMap, List.mem_map, List.mem_filter,
    List.mem_reverse, decide_eq_true_eq]
  constructor
  · rintro ⟨e, he, hm, hentity⟩
    exact ⟨⟨e.step, ⟨e, he, rfl⟩, hm⟩, hentity⟩
  · rintro ⟨⟨_, ⟨e, he, rfl⟩, hm⟩, hentity⟩
    exact ⟨e, he, hm, hentity⟩

theorem mem_reservations : x ∈ reservations entity past ↔
    x ∈ reservedBy (past.map (·.step)) ∧ x.entity = entity := by
  simp only [reservations, reservedBy, List.mem_flatMap, List.mem_map, List.mem_filter,
    decide_eq_true_eq]
  constructor
  · rintro ⟨e, he, hx, hentity⟩
    exact ⟨⟨e.step, ⟨e, he, rfl⟩, hx⟩, hentity⟩
  · rintro ⟨⟨_, ⟨e, he, rfl⟩, hx⟩, hentity⟩
    exact ⟨e, he, hx, hentity⟩

variable (hc : Consistent (past.map (·.step)))
variable (hp : (past.map (·.step)).Perm (past'.map (·.step)))

include hc hp

/-- The record of an entity that came last is any of its records. -/
theorem head?_records_of_perm (entity : Nat) :
    (records entity past).head? = (records entity past').head? := by
  refine head?_eq_of_mem_iff (fun m => ?_) fun m hm m' hm' => ?_
  · rw [mem_records, mem_records, recordedBy, (hp.flatMap_right _).mem_iff, ← recordedBy]
  · rw [mem_records] at hm hm'
    exact hc.recorded m hm.1 m' hm'.1 (hm.2.trans hm'.2.symm)

/-- And the reservation that came first is any of them, where nothing is recorded. -/
theorem getLast?_reservations_of_perm
    (hnone : ∀ m ∈ recordedBy (past.map (·.step)), m.signature.entity ≠ entity) :
    (reservations entity past).getLast? = (reservations entity past').getLast? := by
  rw [List.getLast?_eq_head?_reverse, List.getLast?_eq_head?_reverse]
  refine head?_eq_of_mem_iff (fun x => ?_) fun x hx x' hx' => ?_
  · rw [List.mem_reverse, List.mem_reverse, mem_reservations, mem_reservations, reservedBy,
      (hp.flatMap_right _).mem_iff, ← reservedBy]
  · rw [List.mem_reverse, mem_reservations] at hx hx'
    exact hc.reserved x hx.1 x' hx'.1 (hx.2.trans hx'.2.symm) (hx.2 ▸ hnone)

/-- Consistent steps lead to the same method for an entity in any order. -/
theorem primary_of_perm (entity : Nat) : primary entity past = primary entity past' := by
  unfold primary
  rw [← head?_records_of_perm hc hp entity]
  cases hfirst : (records entity past).head? with
  | some m => rfl
  | none =>
    have hnil : records entity past = [] := List.head?_eq_none_iff.mp hfirst
    have hnone : ∀ m ∈ recordedBy (past.map (·.step)), m.signature.entity ≠ entity :=
      fun m hm he => List.not_mem_nil (hnil ▸ mem_records.mpr ⟨hm, he⟩)
    rw [getLast?_reservations_of_perm hc hp hnone]

end

/-! ### The same methods in another order -/

namespace Store

variable {s s' l l' t : Store} {past past' later : List StoreEvent}

theorem Reorders.symm (h : s.Reorders s') : s'.Reorders s := ⟨h.methods.symm, h.byName.symm⟩

theorem Reorders.trans {s'' : Store} (h : s.Reorders s') (h' : s'.Reorders s'') :
    s.Reorders s'' := ⟨h'.methods.trans h.methods, h'.byName.trans h.byName⟩

/-- Two stores answer the same to whatever they are asked. -/
structure SameAnswers (s s' : Store) : Prop where
  contents : ∀ entity, s.get? entity = s'.get? entity
  size : s.size = s'.size
  /-- The indexes by name have the same entries, in any order, and answer alike. -/
  index : s.nameIndex.1.value.entries.Perm s'.nameIndex.1.value.entries ∧
    ∀ name, s.nameIndex.1.value.get? name = s'.nameIndex.1.value.get? name
  lookup : ∀ name, (s.lookup name).1 = (s'.lookup name).1
  body : ∀ name, (s.body name).1 = (s'.body name).1
  single : ∀ wanted, s.single wanted = s'.single wanted

/-- A search counts what matches, and finds it where there is one. -/
theorem Reorders.single (h : s.Reorders s') (wanted : Signature → Bool) :
    s.single wanted = s'.single wanted := by
  have hperm : (s.methods.filter fun e => wanted e.2.signature).Perm
      (s'.methods.filter fun e => wanted e.2.signature) := h.methods.symm.filter _
  unfold Store.single
  generalize s.methods.filter (fun e => wanted e.2.signature) = found at hperm
  generalize s'.methods.filter (fun e => wanted e.2.signature) = found' at hperm
  have hlength := hperm.length_eq
  rcases found with _ | ⟨e, _ | ⟨e₂, rest⟩⟩
  · rw [hperm.nil_eq]
  · rw [List.singleton_perm.mp hperm]
  · rcases found' with _ | ⟨e', _ | ⟨e₂', rest'⟩⟩
    · simp at hlength
    · simp at hlength
    · exact congrArg (fun count => Except.error (SearchFailure.ambiguous count)) hlength

/-- The snapshots of the two stores lead to indexes that answer alike. -/
theorem Reorders.get?_snapshot (h : s.Reorders s') (name : String) :
    (UniqueIndex.ofEntries s.snapshot).get? name =
      (UniqueIndex.ofEntries s'.snapshot).get? name := by
  have hnamed := h.named name
  refine Option.ext fun m => ?_
  rw [Store.get?_snapshot, Store.get?_snapshot]
  constructor
  · rintro ⟨entity, hone, hbody⟩
    exact ⟨entity, List.perm_singleton.mp (hone ▸ hnamed), hbody⟩
  · rintro ⟨entity, hone, hbody⟩
    exact ⟨entity, (List.singleton_perm.mp (hone ▸ hnamed)).symm, hbody⟩

/-- Where the index is not built, the order of the methods shows in no answer. -/
theorem Reorders.sameAnswers (h : s.Reorders s') (hk : s.Keyed) (hb : s.byName.isBuilt = false) :
    SameAnswers s s' := by
  have hb' : s'.byName.isBuilt = false := h.byName ▸ hb
  have hlookup : ∀ name, (s.lookup name).1 = (s'.lookup name).1 := fun name => by
    rw [lookup_of_not_built hb, lookup_of_not_built hb', h.get?_snapshot]
  refine ⟨fun entity => (hk.get?_reordered h entity).symm, h.methods.length_eq.symm, ?_, hlookup,
    fun name => congrArg (·.bind (·.body)) (hlookup name), h.single⟩
  rw [(nameIndex_of_not_built hb).1, (nameIndex_of_not_built hb').1]
  have hperm := (UniqueIndex.keyed_ofEntries _).entries_perm (UniqueIndex.keyed_ofEntries _)
    h.get?_snapshot
  exact ⟨hperm, h.get?_snapshot⟩

/-! ### Runs that emit -/

/-- Emission leaves the index as it is, unbuilt. -/
theorem byName_run (h : Run past s) (hemits : ∀ step ∈ past.map (·.step), step.emits = true) :
    s.byName = .empty := by
  induction h with
  | start => rfl
  | @step past s s' _ hr step ih =>
    obtain ⟨ha, hd⟩ := StoreStep.quiet_of_emits (hemits step (by simp))
    rw [byName_perform s' ha hd, hr.byName]
    exact ih fun step hmem => hemits step (List.mem_cons_of_mem _ hmem)

/-- Runs of the same consistent steps lead to the same methods. -/
theorem reorders_of_perm (h : Run past s) (h' : Run past' s')
    (hp : (past.map (·.step)).Perm (past'.map (·.step)))
    (hc : Consistent (past.map (·.step))) : s.Reorders s' := by
  have hkeyed := (kept_run h).keyed
  have hkeyed' := (kept_run h').keyed
  refine ⟨(List.perm_ext_iff_of_nodup (.of_map _ hkeyed') (.of_map _ hkeyed)).mpr ?_, ?_⟩
  · rintro ⟨entity, m⟩
    rw [← lookup_eq_some_iff_mem hkeyed', ← lookup_eq_some_iff_mem hkeyed, ← get?, ← get?,
      (kept_run h').contents, (kept_run h).contents, primary_of_perm hc hp]
  · rw [byName_run h hc.emits, byName_run h' fun step hmem => hc.emits step (hp.mem_iff.mpr hmem)]

/-- So whatever happens after the one order, with whatever answers, may happen after the other. -/
theorem run_after_either (h' : Run past' s')
    (hp : (past.map (·.step)).Perm (past'.map (·.step))) (hc : Consistent (past.map (·.step)))
    (hlater : Run (later ++ past) t) : ∃ t', Run (later ++ past') t' ∧ t'.Reorders t := by
  induction later generalizing t with
  | nil => exact ⟨s', h', (reorders_of_perm hlater h' hp hc).symm⟩
  | cons e later ih =>
    cases hlater with
    | step hbefore hr step =>
      obtain ⟨t', hrun, hsame⟩ := ih hbefore
      exact ⟨_, hrun.step (hsame.trans hr) step, .refl _⟩

/-- **Methods are emitted in any order.** Where the same records and reservations are performed in
two orders, and they are consistent, the stores have the same methods, which are those recorded or
else reserved, and give the same answers, in whatever order they list their methods. -/
theorem emitted_in_any_order (h : Run past s) (h' : Run past' s')
    (hp : (past.map (·.step)).Perm (past'.map (·.step)))
    (hc : Consistent (past.map (·.step))) (hl : s.Reorders l) (hl' : s'.Reorders l') :
    SameAnswers l l' ∧ ∀ entity, l.get? entity = primary entity past := by
  have hsame : l.Reorders l' := hl.symm.trans ((reorders_of_perm h h' hp hc).trans hl')
  have hkept : Kept past l := (kept_run h).reordered hl
  have hbuilt : l.byName.isBuilt = false := by
    rw [hl.byName, byName_run h hc.emits]
    rfl
  exact ⟨hsame.sameAnswers hkept.keyed hbuilt, hkept.contents⟩

/-- Records of one entity that differ show in what order they came. -/
example :
    ((empty.record (memberOfC 0 "Run") ["ret"]).record (memberOfC 0 "Run") ["nop"]).get? 0 ≠
      ((empty.record (memberOfC 0 "Run") ["nop"]).record (memberOfC 0 "Run") ["ret"]).get? 0 := by
  decide

/-- A method is reserved under another name, recorded twice, and another is reserved twice. -/
def mixed : List StoreStep :=
  [.reserve (memberOfC 0 "Stop"), .record (memberOfC 0 "Run") ["ret"],
    .reserve (memberOfC 1 "Halt"),
    .recordAll [(memberOfC 0 "Run", ["ret"]), (memberOfC 2 "Go", ["nop"])],
    .reserve (memberOfC 1 "Halt")]

theorem mixed_consistent : Consistent mixed.reverse := by
  constructor <;> decide

/-- In the opposite order the methods stand in another order, and the answers are the same. -/
theorem mixed_in_any_order :
    Consistent mixed.reverse ∧
      (performAll mixed).2.methods ≠ (performAll mixed.reverse).2.methods ∧
      (SameAnswers (performAll mixed).2 (performAll mixed.reverse).2.backwards ∧
        ∀ entity, (performAll mixed).2.get? entity = primary entity (performAll mixed).1) ∧
      ((performAll mixed).2.lookup "C.Run()").1 = some ⟨memberOfC 0 "Run", some ["ret"]⟩ :=
  ⟨mixed_consistent, by decide,
    emitted_in_any_order (run_performAll mixed) (run_performAll mixed.reverse)
      (List.reverse_perm mixed) mixed_consistent (.refl _) (reorders_backwards _), by decide⟩

end Store
end Emission
end Deferral
