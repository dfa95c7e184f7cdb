/-
# Two ways to find a method by its name

The index by name and a search of the methods go about it differently. The index gives each name a
place, which a method without a body takes as well, and a second method of the name leaves empty. A
search counts what matches. Neither depends on the order in which the methods stand, and where the
index is built from what the search sees, they agree.

Key definitions: `Emission.Store.named`, `Emission.Store.Reorders`, `Emission.Store.PathsAgree`.
Key theorems: `Emission.Store.get?_snapshot`, `Emission.Store.lookup_agrees_single`.
-/
import Deferral.Emission.Store
import Deferral.Proofs.UniqueKeys
import Mathlib.Data.List.Perm.Basic

namespace Deferral
namespace Emission
namespace Store

variable {s s' : Store} {name : String} {m m' : Method} {wanted : Signature → Bool}

/-- The entries of the methods with this display name. -/
def named (s : Store) (name : String) : List (Nat × Method) :=
  s.methods.filter fun e => e.2.signature.displayName = name

/-- The other store has the same methods, in any order, and the same index. -/
structure Reorders (s s' : Store) : Prop where
  methods : s'.methods.Perm s.methods
  byName : s'.byName = s.byName

theorem Reorders.refl (s : Store) : s.Reorders s := ⟨.refl _, rfl⟩

theorem Reorders.named (h : s.Reorders s') (name : String) :
    (s'.named name).Perm (s.named name) := h.methods.filter _

/-! ### The index -/

theorem entriesOf_snapshot (s : Store) (name : String) :
    entriesOf name s.snapshot = (s.named name).map fun e => nameEntry e.2 := by
  simp [entriesOf, snapshot, Store.named, List.filter_map, Function.comp_def, nameEntry]

theorem nameEntry_eq_iff : nameEntry m' = (name, some m) ↔
    m' = m ∧ m.signature.displayName = name ∧ m.isReserved = false := by
  unfold nameEntry
  cases h : m'.isReserved <;> grind

/-- The index has a method under a name when it is the only one of this name, and has a body. -/
theorem get?_snapshot : (UniqueIndex.ofEntries s.snapshot).get? name = some m ↔
    ∃ entity, s.named name = [(entity, m)] ∧ m.isReserved = false := by
  rw [UniqueIndex.get?_ofEntries, entriesOf_snapshot, List.map_eq_singleton_iff]
  constructor
  · rintro ⟨⟨entity, m'⟩, hnamed, hentry⟩
    obtain ⟨rfl, -, hbody⟩ := nameEntry_eq_iff.mp hentry
    exact ⟨entity, hnamed, hbody⟩
  · rintro ⟨entity, hnamed, hbody⟩
    have hmem : (entity, m) ∈ s.named name := by simp [hnamed]
    have hname : m.signature.displayName = name := by simpa using List.of_mem_filter hmem
    exact ⟨(entity, m), hnamed, nameEntry_eq_iff.mpr ⟨rfl, hname, hbody⟩⟩

theorem nameIndex_of_built {ix : SharedIndex String Method}
    (h : s.byName.built.stored = some ix) : s.nameIndex = (ix, s) := by
  simp [nameIndex, OnDemandIndex.demand, h]

/-- Where the index is not built, it is built from what is there now. -/
theorem nameIndex_of_not_built (h : s.byName.isBuilt = false) :
    s.nameIndex.1.value = UniqueIndex.ofEntries s.snapshot ∧
      s.nameIndex.2.byName.built.stored = some s.nameIndex.1 := by
  have hstored : s.byName.built.stored = none := by
    simpa [OnDemandIndex.isBuilt, WriteOnce.isFilled] using h
  simp [nameIndex, OnDemandIndex.demand, hstored, OnDemandIndex.finish, OnDemandIndex.offer,
    WriteOnce.offer, OnDemandIndex.enter, OnDemandIndex.emit, OnDemandIndex.leave]

theorem lookup_of_not_built (h : s.byName.isBuilt = false) (name : String) :
    (s.lookup name).1 = (UniqueIndex.ofEntries s.snapshot).get? name := by
  rw [← (nameIndex_of_not_built h).1]
  rfl

/-- The next use of a dropped index builds it again. -/
theorem isBuilt_dropIndex (s : Store) : s.dropIndex.byName.isBuilt = false := rfl

/-! ### The search -/

theorem single_eq_ok : s.single wanted = .ok m ↔
    ∃ entity, (s.methods.filter fun e => wanted e.2.signature) = [(entity, m)] := by
  unfold single
  rcases hfound : s.methods.filter fun e => wanted e.2.signature with
    _ | ⟨⟨entity, m'⟩, _ | ⟨e', rest⟩⟩
  · simp [hfound]
  · simp [hfound]
  · simp [hfound]

theorem single_eq_ambiguous {count : Nat} (h : s.single wanted = .error (.ambiguous count)) :
    2 ≤ count ∧ count = s.methods.countP fun e => wanted e.2.signature := by
  unfold single at h
  rw [List.countP_eq_length_filter]
  rcases hfound : s.methods.filter fun e => wanted e.2.signature with _ | ⟨e, _ | ⟨e', rest⟩⟩
  · simp [hfound] at h
  · simp [hfound] at h
  · simp only [hfound, Except.error.injEq, SearchFailure.ambiguous.injEq] at h
    exact ⟨by simp [← h], by rw [hfound, h]⟩

/-! ### The two agree -/

/-- What a lookup of a name and a search for it have to do with each other, where the index is not
built and the methods stand in one order for the one and in another for the other. -/
structure PathsAgree (name : String) (present : List (Nat × Method)) (looked : Option Method)
    (searched : Except SearchFailure Method) : Prop where
  /-- A method is looked up when the search finds it, and it has a body. -/
  found : ∀ m, looked = some m ↔ searched = .ok m ∧ m.isReserved = false
  /-- Where the search fails, nothing is looked up. -/
  failed : ∀ failure, searched = .error failure → looked = none
  /-- A search that finds several methods counts all that have the name. -/
  counted : ∀ count, searched = .error (.ambiguous count) →
    2 ≤ count ∧ count = present.countP fun e => e.2.signature.displayName = name

/-- **Lookups and searches agree**, whatever the order of the methods in either. -/
theorem lookup_agrees_single {l f : Store} (hs : s.byName.isBuilt = false) (hl : s.Reorders l)
    (hf : s.Reorders f) (name : String) :
    PathsAgree name s.methods (l.lookup name).1
      (f.single fun signature => signature.displayName = name) := by
  have hbuilt : l.byName.isBuilt = false := hl.byName ▸ hs
  have hnamed : (l.named name).Perm (f.named name) := (hl.named name).trans (hf.named name).symm
  have hfound : ∀ m, (l.lookup name).1 = some m ↔
      f.single (fun signature => signature.displayName = name) = .ok m ∧ m.isReserved = false := by
    intro m
    rw [lookup_of_not_built hbuilt, get?_snapshot, single_eq_ok]
    constructor
    · rintro ⟨entity, hone, hbody⟩
      exact ⟨⟨entity, List.singleton_perm.mp (hone ▸ hnamed) |>.symm⟩, hbody⟩
    · rintro ⟨⟨entity, hone⟩, hbody⟩
      exact ⟨entity, List.perm_singleton.mp (hnamed.trans (.of_eq hone)), hbody⟩
  refine ⟨hfound, fun failure hfail => ?_, fun count hcount => ?_⟩
  · refine Option.eq_none_iff_forall_ne_some.mpr fun m hm => ?_
    rw [((hfound m).mp hm).1] at hfail
    cases hfail
  · obtain ⟨htwo, hall⟩ := single_eq_ambiguous hcount
    exact ⟨htwo, hall.trans (hf.methods.countP_eq _)⟩

/-- The signature of a method of `C` without parameters. -/
def memberOfC (entity : Nat) (name : String) : Signature :=
  ⟨entity, ["C"], name, [], [], "void", .ordinary⟩

/-- A method with a body, one of the same name without, and another, in a store whose index was
built on the first alone and then dropped. -/
def crowded : Store :=
  let ran := (empty.record (memberOfC 0 "Run") ["ret"]).lookup "C.Run()"
  ((ran.2.reserve (memberOfC 1 "Run")).record (memberOfC 2 "Stop") ["nop", "ret"]).dropIndex

/-- The methods in the opposite order. -/
def backwards (s : Store) : Store := { s with methods := s.methods.reverse }

theorem reorders_backwards (s : Store) : s.Reorders s.backwards :=
  ⟨List.reverse_perm s.methods, rfl⟩

/-- One name is found both ways, and under the other there are two methods. -/
theorem crowded_agrees :
    PathsAgree "C.Stop()" crowded.methods (crowded.backwards.lookup "C.Stop()").1
        (crowded.single fun signature => signature.displayName = "C.Stop()") ∧
      PathsAgree "C.Run()" crowded.methods (crowded.backwards.lookup "C.Run()").1
        (crowded.single fun signature => signature.displayName = "C.Run()") ∧
      (crowded.backwards.lookup "C.Stop()").1 = some ⟨memberOfC 2 "Stop", some ["nop", "ret"]⟩ ∧
      crowded.single (fun signature => signature.displayName = "C.Run()") =
        .error (.ambiguous 2) :=
  ⟨lookup_agrees_single (isBuilt_dropIndex _) (reorders_backwards crowded) (.refl _) _,
    lookup_agrees_single (isBuilt_dropIndex _) (reorders_backwards crowded) (.refl _) _,
    by decide, by decide⟩

end Store
end Emission
end Deferral
