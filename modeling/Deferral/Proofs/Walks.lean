/-
# Walks over a bag

A walk takes the entries that are in the bag when it begins, resolves one after the other, and
returns what is to be reported in the order of a report. Between any two of its steps there may be
steps of other walks, calls of the same diagnostics, on other threads or nested in computations, and
new entries; and each computation ends as it likes. Whatever a walk has found is published from then
on, and a walk finds whatever was published when it began. So nothing that was reported is retracted
or reordered.

Key definitions: `Walks.State`, `Walks.Step`, `Walks.published`.
Key theorems: `Walks.reports_run`, `Walks.finds_run`, `Walks.returned_sublist`,
`Session.collect_sublist`.
-/
import Mathlib
import Deferral.Proofs.Congruence
import Deferral.Proofs.Memoization
import Deferral.Proofs.ReportOrder

namespace Deferral

/-- What is kept of some elements is kept of them where more is kept. -/
theorem filterMap_sublist_filterMap {α β : Type} {f g : α → Option β}
    (h : ∀ a b, f a = some b → g a = some b) (l : List α) :
    (l.filterMap f).Sublist (l.filterMap g) := by
  induction l with
  | nil => exact List.Sublist.refl _
  | cons a l ih =>
    cases ha : f a with
    | none =>
      rw [List.filterMap_cons_none ha]
      exact ih.trans ((List.sublist_cons_self a l).filterMap g)
    | some b =>
      rw [List.filterMap_cons_some ha, List.filterMap_cons_some (h a b ha)]
      exact ih.cons_cons b

namespace Walks

open Memo Session

/-! ### Walks and their steps -/

/-- What is in a bag: a diagnostic that is known, or one that is resolved. -/
inductive Entry where
  | known (r : Diagnostic)
  | deferred (d : Nat)

/-- How far a walk has come. -/
inductive Walk where
  | outside
  /-- It is to resolve the rest of the entries, and has found some diagnostics. -/
  | walking (rest : List Entry) (found : List Diagnostic)
  /-- It waits for call `k` of diagnostic `d`, which it has made. -/
  | resolving (d k : Nat) (rest : List Entry) (found : List Diagnostic)
  | returned (ds : List Diagnostic)
  | failed

/-- The memory of the diagnostics, the entries of the bag, and how far each walk has come. -/
structure State where
  memory : Memory
  entries : List Entry
  walks : Nat → Walk

namespace State

/-- Nothing is memoized, the bag is empty, and nothing walks. -/
def initial : State := ⟨.initial, [], fun _ => .outside⟩

/-- Walk `j` gets as far as `x`. -/
def setWalk (s : State) (j : Nat) (x : Walk) : State :=
  { s with walks := fun i => if i = j then x else s.walks i }

end State

/-- One step of a walk, of a call of a diagnostic, or of what fills the bag. -/
inductive Step (s : State) : State → Prop where
  | memo {e : Event} {m : Memory} (h : Memo.Step s.memory e m) : Step s { s with memory := m }
  | push (x : Entry) : Step s { s with entries := s.entries ++ [x] }
  | begin {j : Nat} (h : s.walks j = .outside) : Step s (s.setWalk j (.walking s.entries []))
  | take {j : Nat} {r : Diagnostic} {rest : List Entry} {found : List Diagnostic}
      (h : s.walks j = .walking (.known r :: rest) found) :
      Step s (s.setWalk j (.walking rest (found ++ [r])))
  | call {j d k : Nat} {rest : List Entry} {found : List Diagnostic} {m : Memory}
      (h : s.walks j = .walking (.deferred d :: rest) found)
      (hm : Memo.Step s.memory (.enter d k) m) :
      Step s ({ s with memory := m }.setWalk j (.resolving d k rest found))
  | answer {j d k : Nat} {rest : List Entry} {found : List Diagnostic}
      {o : Option (Shared Finding)} (h : s.walks j = .resolving d k rest found)
      (ho : (s.memory.calls d k).answer? = some o) :
      Step s (s.setWalk j (.walking rest (found ++ (o.bind (·.value.diagnostic?)).toList)))
  | unwind {j d k : Nat} {rest : List Entry} {found : List Diagnostic}
      (h : s.walks j = .resolving d k rest found) (hf : s.memory.calls d k = .failed) :
      Step s (s.setWalk j .failed)
  | finish {j : Nat} {found : List Diagnostic} (h : s.walks j = .walking [] found) :
      Step s (s.setWalk j (.returned (Diagnostic.inReportOrder found)))

/-- Any number of steps. -/
abbrev Run : State → State → Prop := Relation.ReflTransGen Step

/-! ### What is published -/

/-- What an entry has to report so far. -/
def Entry.published (m : Memory) : Entry → Option Diagnostic
  | .known r => some r
  | .deferred d => (m.slots d).stored.bind (·.value.diagnostic?)

/-- What some entries have to report so far. -/
def published (m : Memory) (es : List Entry) : List Diagnostic := es.filterMap (Entry.published m)

/-- What is memoized stays. -/
def Keeps (m m' : Memory) : Prop :=
  ∀ d o, (m.slots d).stored = some o → (m'.slots d).stored = some o

section

variable {m m' : Memory} {es es' : List Entry} {s s' s'' : State} {x : Entry} {r : Diagnostic}

@[simp] theorem published_append (m : Memory) (es es' : List Entry) :
    published m (es ++ es') = published m es ++ published m es' := List.filterMap_append

theorem published_concat (m : Memory) (es : List Entry) (x : Entry) :
    published m (es ++ [x]) = published m es ++ (x.published m).toList := by
  rw [published_append]
  cases hx : x.published m with
  | none => simp [published, hx]
  | some r => simp [published, hx]

theorem Entry.published_of_keeps (h : Keeps m m') (hx : x.published m = some r) :
    x.published m' = some r := by
  cases x with
  | known r' => exact hx
  | deferred d =>
    obtain ⟨o, ho, hr⟩ := Option.bind_eq_some_iff.mp hx
    exact Option.bind_eq_some_iff.mpr ⟨o, h d o ho, hr⟩

/-- What is published stays, in the same order. -/
theorem published_sublist (h : Keeps m m') (hes : es <+: es') :
    (published m es).Sublist (published m' es') := by
  have hkept : (published m es).Sublist (published m' es) :=
    filterMap_sublist_filterMap (fun x _ hx => x.published_of_keeps h hx) es
  exact hkept.trans (hes.sublist.filterMap _)

/-- The bag keeps its entries, and its entries keep their results. -/
structure Grows (s s' : State) : Prop where
  keeps : Keeps s.memory s'.memory
  entries : s.entries <+: s'.entries

theorem Grows.refl (s : State) : Grows s s := ⟨fun _ _ h => h, List.prefix_rfl⟩

theorem Grows.trans (h : Grows s s') (h' : Grows s' s'') : Grows s s'' :=
  ⟨fun d o ho => h'.keeps d o (h.keeps d o ho), h.entries.trans h'.entries⟩

theorem Grows.setWalk (s : State) (j : Nat) (x : Walk) : Grows s (s.setWalk j x) :=
  ⟨fun _ _ h => h, List.prefix_rfl⟩

theorem grows_step (h : Step s s') : Grows s s' := by
  cases h with
  | memo h => exact ⟨fun _ _ => stored_step h, List.prefix_rfl⟩
  | push x => exact ⟨fun _ _ h => h, List.prefix_append _ _⟩
  | call h hm => exact ⟨fun _ _ => stored_step hm, List.prefix_rfl⟩
  | begin h => exact .setWalk s _ _
  | take h => exact .setWalk s _ _
  | answer h ho => exact .setWalk s _ _
  | unwind h hf => exact .setWalk s _ _
  | finish h => exact .setWalk s _ _

theorem grows_run (h : Run s s') : Grows s s' := by
  induction h with
  | refl => exact .refl s
  | tail _ hs ih => exact ih.trans (grows_step hs)

/-- Calls take the same steps as without walks. -/
theorem memory_run (h : Run .initial s) : ∃ past, Memo.Run .initial past s.memory := by
  induction h with
  | refl => exact ⟨[], .refl⟩
  | tail _ hs ih =>
    obtain ⟨past, hr⟩ := ih
    cases hs with
    | memo h => exact ⟨_, hr.step h⟩
    | call h hm => exact ⟨_, hr.step hm⟩
    | push x => exact ⟨past, hr⟩
    | begin h => exact ⟨past, hr⟩
    | take h => exact ⟨past, hr⟩
    | answer h ho => exact ⟨past, hr⟩
    | unwind h hf => exact ⟨past, hr⟩
    | finish h => exact ⟨past, hr⟩

end

/-! ### What walks have found is published -/

section

variable {s s' : State} {j : Nat} {x : Walk}

theorem setWalk_self : (s.setWalk j x).walks j = x := if_pos rfl

/-- What holds of the walk that goes on, and of the walks there were, holds of all. -/
theorem setWalk_of {P : Walk → Prop} {i : Nat} (h : i = j → P x) (h' : i ≠ j → P (s.walks i)) :
    P ((s.setWalk j x).walks i) := by
  unfold State.setWalk
  dsimp only
  split
  · rename_i hi
    exact h hi
  · rename_i hi
    exact h' hi

/-- The entries that the walk has come past have published what it has found. -/
def Walk.Reports (s : State) : Walk → Prop
  | .walking rest found =>
    ∃ past, past ++ rest <+: s.entries ∧ found.Sublist (published s.memory past)
  | .resolving d _ rest found =>
    ∃ past, past ++ .deferred d :: rest <+: s.entries ∧ found.Sublist (published s.memory past)
  | .returned ds =>
    ∃ found, ds = Diagnostic.inReportOrder found ∧ found.Sublist (published s.memory s.entries)
  | .outside => True
  | .failed => True

theorem Walk.Reports.grows (h : x.Reports s) (hg : Grows s s') : x.Reports s' := by
  have hsub : ∀ es, (published s.memory es).Sublist (published s'.memory es) :=
    fun es => published_sublist hg.keeps List.prefix_rfl
  cases x with
  | outside => trivial
  | failed => trivial
  | walking rest found =>
    obtain ⟨past, hpast, hfound⟩ := h
    exact ⟨past, hpast.trans hg.entries, hfound.trans (hsub past)⟩
  | resolving d k rest found =>
    obtain ⟨past, hpast, hfound⟩ := h
    exact ⟨past, hpast.trans hg.entries, hfound.trans (hsub past)⟩
  | returned ds =>
    obtain ⟨found, hds, hfound⟩ := h
    exact ⟨found, hds, hfound.trans (published_sublist hg.keeps hg.entries)⟩

/-- The walk comes past one more entry, and finds what is published of it, if anything. -/
theorem Walk.Reports.past {y : Entry} {past rest : List Entry} {found more : List Diagnostic}
    (hpast : past ++ y :: rest <+: s.entries) (hfound : found.Sublist (published s.memory past))
    (hmore : more.Sublist (y.published s.memory).toList) :
    (Walk.walking rest (found ++ more)).Reports s := by
  refine ⟨past ++ [y], ?_, ?_⟩
  · rwa [List.append_assoc]
  · rw [published_concat]
    exact hfound.append hmore

theorem reports_step (hr : Run .initial s) (hs : Step s s') (h : ∀ j, (s.walks j).Reports s) :
    ∀ j, (s'.walks j).Reports s' := by
  intro i
  have hg := grows_step hs
  have hi := (h i).grows hg
  cases hs with
  | memo hm => exact hi
  | push y => exact hi
  | @begin j hj =>
    exact setWalk_of (fun _ => ⟨[], List.prefix_rfl, List.nil_sublist _⟩) fun _ => hi
  | @take j r rest found hj =>
    obtain ⟨past, hpast, hfound⟩ : (Walk.walking (.known r :: rest) found).Reports s := hj ▸ h j
    exact setWalk_of (fun _ => .past hpast hfound (List.Sublist.refl _)) fun _ => hi
  | @call j d k rest found m hj hm =>
    have hwalk : (Walk.walking (.deferred d :: rest) found).Reports s := hj ▸ h j
    exact setWalk_of (fun _ => hwalk.grows hg) fun _ => hi
  | @answer j d k rest found o hj ho =>
    obtain ⟨past, hpast, hfound⟩ : (Walk.resolving d k rest found).Reports s := hj ▸ h j
    -- what a call answers is memoized
    have hmore : (o.bind (·.value.diagnostic?)).toList.Sublist
        ((Entry.deferred d).published s.memory).toList := by
      cases o with
      | none => exact List.nil_sublist _
      | some o =>
        obtain ⟨events, hrun⟩ := memory_run hr
        have hst : (s.memory.slots d).stored = some o := (account_run hrun).answers d k o ho
        rw [Entry.published, hst]
    have hwalk := Walk.Reports.past hpast hfound hmore
    exact setWalk_of (fun _ => hwalk.grows hg) fun _ => hi
  | @unwind j d k rest found hj hf => exact setWalk_of (fun _ => trivial) fun _ => hi
  | @finish j found hj =>
    obtain ⟨past, hpast, hfound⟩ : (Walk.walking [] found).Reports s := hj ▸ h j
    rw [List.append_nil] at hpast
    refine setWalk_of (fun _ => ⟨found, rfl, hfound.trans ?_⟩) fun _ => hi
    exact published_sublist (fun _ _ h => h) hpast

/-- Whatever a walk has found, entries of the bag have published. -/
theorem reports_run (h : Run .initial s) : ∀ j, (s.walks j).Reports s := by
  induction h with
  | refl => exact fun _ => trivial
  | tail hr hs ih => exact reports_step hr hs ih

end

/-! ### What was published is found -/

section

variable {s₀ s s' : State} {j : Nat} {x : Walk}

/-- Of the entries there were in an earlier state, the walk has found what they had published, as
far as it has come past them. -/
def Walk.Finds (s₀ s : State) : Walk → Prop
  | .walking rest found =>
    ∃ past, s₀.entries <+: past ++ rest ∧ (published s₀.memory past).Sublist found
  | .resolving d k rest found =>
    ∃ past, s₀.entries <+: past ++ .deferred d :: rest ∧
      (published s₀.memory past).Sublist found ∧
      ∀ o, (s₀.memory.slots d).stored = some o → (s.memory.calls d k).readsOnly o
  | .returned ds =>
    ∃ found, ds = Diagnostic.inReportOrder found ∧
      (published s₀.memory s₀.entries).Sublist found
  | .outside => True
  | .failed => True

theorem Walk.Finds.past {y : Entry} {past rest : List Entry} {found more : List Diagnostic}
    (hpast : s₀.entries <+: past ++ y :: rest)
    (hfound : (published s₀.memory past).Sublist found)
    (hmore : (y.published s₀.memory).toList.Sublist more) :
    (Walk.walking rest (found ++ more)).Finds s₀ s := by
  refine ⟨past ++ [y], ?_, ?_⟩
  · rwa [List.append_assoc]
  · rw [published_concat]
    exact hfound.append hmore

/-- A call of a memoized diagnostic that the walk has made goes on reading. -/
theorem Walk.Finds.memo {e : Event} {m : Memory} (h : x.Finds s₀ s) (hg : Grows s₀ s)
    (hm : Memo.Step s.memory e m) : x.Finds s₀ { s with memory := m } := by
  cases x with
  | resolving d k rest found =>
    obtain ⟨past, hpast, hfound, hreads⟩ := h
    exact ⟨past, hpast, hfound, fun o ho => readsOnly_step hm (hg.keeps d o ho) (hreads o ho)⟩
  | outside => trivial
  | failed => trivial
  | walking rest found => exact h
  | returned ds => exact h

theorem finds_step (hg : Grows s₀ s) (hs : Step s s') (h : (s.walks j).Finds s₀ s) :
    (s'.walks j).Finds s₀ s' := by
  cases hs with
  | memo hm => exact h.memo hg hm
  | push y => exact h
  | @begin i hi =>
    exact setWalk_of (fun _ => ⟨[], hg.entries, List.Sublist.refl _⟩) fun _ => h
  | @take i r rest found hi =>
    refine setWalk_of (fun hij => ?_) fun _ => h
    obtain ⟨past, hpast, hfound⟩ : (Walk.walking (.known r :: rest) found).Finds s₀ s :=
      hi ▸ hij ▸ h
    exact .past hpast hfound (List.Sublist.refl _)
  | @call i d k rest found m hi hm =>
    refine setWalk_of (fun hij => ?_) fun _ => h.memo hg hm
    obtain ⟨past, hpast, hfound⟩ : (Walk.walking (.deferred d :: rest) found).Finds s₀ s :=
      hi ▸ hij ▸ h
    refine ⟨past, hpast, hfound, fun o _ => .inr (.inl ?_)⟩
    cases hm with
    | enter hout => exact setCall_self
  | @answer i d k rest found o hi ho =>
    refine setWalk_of (fun hij => ?_) fun _ => h
    obtain ⟨past, hpast, hfound, hreads⟩ : (Walk.resolving d k rest found).Finds s₀ s :=
      hi ▸ hij ▸ h
    refine .past hpast hfound ?_
    cases hst : (s₀.memory.slots d).stored with
    | none =>
      rw [Entry.published, hst]
      exact List.nil_sublist _
    | some o' =>
      -- a call that has only read answers what it has read
      rcases hreads o' hst with hcall | hcall | hcall
      · rw [hcall] at ho
        cases ho
      · rw [hcall] at ho
        cases ho
      · rw [hcall] at ho
        cases ho
        rw [Entry.published, hst]
  | @unwind i d k rest found hi hf => exact setWalk_of (fun _ => trivial) fun _ => h
  | @finish i found hi =>
    refine setWalk_of (fun hij => ?_) fun _ => h
    obtain ⟨past, hpast, hfound⟩ : (Walk.walking [] found).Finds s₀ s := hi ▸ hij ▸ h
    rw [List.append_nil] at hpast
    exact ⟨found, rfl, (published_sublist (fun _ _ h => h) hpast).trans hfound⟩

/-- A walk that has not begun finds whatever is published. -/
theorem finds_run (hout : s₀.walks j = .outside) (hr : Run s₀ s) : (s.walks j).Finds s₀ s := by
  induction hr with
  | refl =>
    rw [hout]
    trivial
  | tail hr hs ih => exact finds_step (grows_run hr) hs ih

end

/-- **Nothing that was reported is retracted or reordered.** Where one walk has returned before
another begins, the other returns all that the first one has, unchanged and in the same order,
whatever else happens before, meanwhile and in between. -/
theorem returned_sublist {s s' : State} (h : Run .initial s) {j j' : Nat} {ds ds' : List Diagnostic}
    (hj : s.walks j = .returned ds) (hj' : s.walks j' = .outside) (hr : Run s s')
    (hds' : s'.walks j' = .returned ds') : ds.Sublist ds' := by
  obtain ⟨found, rfl, hfound⟩ : (Walk.returned ds).Reports s := hj ▸ reports_run h j
  obtain ⟨found', rfl, hfound'⟩ : (Walk.returned ds').Finds s s' := hds' ▸ finds_run hj' hr
  exact Diagnostic.inReportOrder_sublist (hfound.trans hfound')

/-- A report of a use that starts at an offset. -/
def reportAt (start : Nat) : Diagnostic :=
  experimentalReport ⟨0, "Old", .method⟩ .empty ⟨0, ⟨start, start + 1⟩⟩

/-- The first walk leaves a diagnostic undecided, for which the second walk finds a report. -/
theorem returned_sublist_undecided :
    ∃ s s', Run .initial s ∧ s.walks 0 = .returned [reportAt 0] ∧ s.walks 1 = .outside ∧
      Run s s' ∧ s'.walks 1 = .returned [reportAt 0, reportAt 2] ∧
      [reportAt 0].Sublist [reportAt 0, reportAt 2] := by
  have h₁ : Run .initial _ := .tail .refl (.push (.deferred 0))
  have h₂ := h₁.tail (.push (.known (reportAt 0)))
  have h₃ := h₂.tail (.begin (j := 0) rfl)
  have h₄ := h₃.tail (.call (j := 0) (d := 0) (k := 0) rfl (.enter rfl))
  have h₅ := h₄.tail (.memo (.compute (d := 0) (k := 0) rfl rfl))
  have h₆ := h₅.tail (.memo (.undecided (d := 0) (k := 0) rfl))
  have h₇ := h₆.tail (.answer (j := 0) (d := 0) (k := 0) rfl rfl)
  have h₈ := h₇.tail (.take (j := 0) rfl)
  have h₉ := h₈.tail (.finish (j := 0) (show _ = Walk.walking [] [reportAt 0] from rfl))
  have hstay : ∀ {s : State}, Run .initial s → Run s s := fun _ => .refl
  have g₁ := (hstay h₉).tail (.begin (j := 1) rfl)
  have g₂ := g₁.tail (.call (j := 1) (d := 0) (k := 1) rfl (.enter rfl))
  have g₃ := g₂.tail (.memo (.compute (d := 0) (k := 1) rfl rfl))
  have g₄ := g₃.tail (.memo (.result (d := 0) (k := 1) (f := .report (reportAt 2)) rfl))
  have g₅ := g₄.tail (.memo (.publish (d := 0) (k := 1) rfl))
  have g₆ := g₅.tail (.answer (j := 1) (d := 0) (k := 1) rfl rfl)
  have g₇ := g₆.tail (.take (j := 1) rfl)
  have g₈ := g₇.tail (.finish (j := 1) (show _ = Walk.walking [] [reportAt 2, reportAt 0] from rfl))
  have hsort : Diagnostic.inReportOrder [reportAt 0] = [reportAt 0] := by cbv
  have hsort' : Diagnostic.inReportOrder [reportAt 2, reportAt 0] = [reportAt 0, reportAt 2] := by
    cbv
  have hj : ∀ {s : State} {j : Nat},
      (s.setWalk j (.returned (Diagnostic.inReportOrder [reportAt 0]))).walks j =
        .returned [reportAt 0] := setWalk_self.trans (congrArg Walk.returned hsort)
  have hj' : ∀ {s : State} {j : Nat},
      (s.setWalk j (.returned (Diagnostic.inReportOrder [reportAt 2, reportAt 0]))).walks j =
        .returned [reportAt 0, reportAt 2] := setWalk_self.trans (congrArg Walk.returned hsort')
  exact ⟨_, _, h₉, hj, rfl, g₈, hj', returned_sublist h₉ hj rfl g₈ hj'⟩

end Walks

/-! ### The walks of a session -/

namespace Session

section

variable {p : Program} {run run' : Runner} {at_ at_' : Scope} {c c' c₁ c₂ c₃ : Course}
variable {w w' : World} {cell : Nat} {cells : List Nat} {bag : String} {ds ds' : List Diagnostic}

/-- The result of a diagnostic, if there is one yet. -/
def World.result? (w : World) (cell : Nat) : Option (Shared Finding) :=
  w.cells[cell]?.bind Cell.result?

/-- What a diagnostic has to report so far. -/
def World.report? (w : World) (cell : Nat) : Option Diagnostic :=
  (w.result? cell).bind (·.value.diagnostic?)

/-- What some diagnostics have to report so far. -/
def World.published (w : World) (cells : List Nat) : List Diagnostic := cells.filterMap w.report?

theorem World.published_cons (w : World) (cell : Nat) (cells : List Nat) :
    w.published (cell :: cells) = (w.report? cell).toList ++ w.published cells := by
  unfold World.published
  cases hr : w.report? cell with
  | none =>
    rw [List.filterMap_cons_none hr]
    rfl
  | some r =>
    rw [List.filterMap_cons_some hr]
    rfl

theorem World.Later.result? {o : Shared Finding} (h : w.Later w') (ho : w.result? cell = some o) :
    w'.result? cell = some o := by
  obtain ⟨d, hd, hr⟩ := Option.bind_eq_some_iff.mp ho
  obtain ⟨d', hd', hlater⟩ := h.cells cell d hd
  exact Option.bind_eq_some_iff.mpr ⟨d', hd', hlater.result hr⟩

theorem World.Later.published_sublist (h : w.Later w') (cells : List Nat) :
    (w.published cells).Sublist (w'.published cells) := by
  refine filterMap_sublist_filterMap (fun cell d hd => ?_) cells
  obtain ⟨o, ho, hr⟩ := Option.bind_eq_some_iff.mp hd
  exact Option.bind_eq_some_iff.mpr ⟨o, h.result? ho, hr⟩

/-- What has a result is answered it. -/
theorem resolve?_of_result? {o : Shared Finding} (h : c.now.result? cell = some o) :
    resolve? p run at_ cell c = .ok (some o) c := by
  obtain ⟨d, hd, hr⟩ := Option.bind_eq_some_iff.mp h
  exact resolve?_of_result hd hr

/-- What is answered is the result. -/
theorem result?_of_resolve? (hrun : LawfulRunner p run) (hs : c.now.Sound p)
    (ht : c.now.Hosts at_.thread) {o : Shared Finding}
    (h : resolve? p run at_ cell c = .ok (some o) c') : c'.now.result? cell = some o := by
  cases hd : c.now.cells[cell]? with
  | none =>
    rw [resolve?_of_none hd] at h
    cases h
  | some d =>
  cases hr : d.result? with
  | some o' =>
    rw [resolve?_of_result hd hr] at h
    cases h
    exact Option.bind_eq_some_iff.mpr ⟨d, hd, hr⟩
  | none =>
  cases d with
  | known o' => cases hr
  | deferred comp slot calls =>
    rw [resolve?_of_empty hd hr] at h
    obtain ⟨f, c₁, hcomp, h⟩ := Act.bind_eq_ok h
    cases f with
    | none =>
      obtain ⟨u, c₂, -, h⟩ := Act.bind_eq_ok h
      cases h
    | some f =>
      -- whatever ran meanwhile, the diagnostic still has this computation
      have hcount : Passage p c (c.counting cell comp slot calls) := passage_count hs hd
      have hpass := (lawful_compute hrun calls comp).ok (hcount.sound hs) (hcount.hosts ht) hcomp
      obtain ⟨_, hd₁, slot', calls', rfl, -⟩ :=
        (hcount.later.trans hpass.later).cells cell _ hd
      obtain ⟨ho, hd'⟩ := keepFinding_of_deferred hd₁ h
      rw [Option.some.inj ho]
      exact Option.bind_eq_some_iff.mpr ⟨_, hd', WriteOnce.stored_offer slot' _⟩

/-- A walk resolves the first diagnostic and then walks over the others. -/
theorem resolveEach_cons_eq_ok (h : resolveEach p run at_ (cell :: cells) c = .ok ds c') :
    ∃ o c₁ rest, resolve? p run at_ cell c = .ok o c₁ ∧
      resolveEach p run at_ cells c₁ = .ok rest c' ∧
      ds = (o.bind (·.value.diagnostic?)).toList ++ rest := by
  rw [resolveEach_cons] at h
  obtain ⟨o, c₁, hresolve, h⟩ := Act.bind_eq_ok h
  obtain ⟨rest, c₂, hrest, h⟩ := Act.bind_eq_ok h
  cases h
  exact ⟨o, c₁, rest, hresolve, hrest, rfl⟩

/-- A walk that has returned has walked over the bag, and put what it found in order. -/
theorem collect_eq_ok (h : collect p run at_ bag c = .ok ds c') :
    ∃ found, resolveEach p run at_ (c.now.bags bag) c = .ok found c' ∧
      ds = Diagnostic.inReportOrder found := by
  obtain ⟨found, c₁, hfound, h⟩ := Act.bind_eq_ok (x := resolveEach p run at_ (c.now.bags bag)) h
  cases h
  exact ⟨found, hfound, rfl⟩

/-- A walk finds what was published when it began, and only what is published when it ends. -/
theorem published_of_resolveEach (hrun : LawfulRunner p run) (hs : c.now.Sound p)
    (ht : c.now.Hosts at_.thread) (h : resolveEach p run at_ cells c = .ok ds c') :
    (c.now.published cells).Sublist ds ∧ ds.Sublist (c'.now.published cells) := by
  induction cells generalizing c c' ds with
  | nil =>
    cases h
    exact ⟨List.Sublist.refl _, List.Sublist.refl _⟩
  | cons cell cells ih =>
    obtain ⟨o, c₁, rest, hresolve, hrest, rfl⟩ := resolveEach_cons_eq_ok h
    have hpass := (lawful_resolve? hrun cell).ok hs ht hresolve
    have hpass₁ := (lawful_resolveEach hrun cells).ok (hpass.sound hs) (hpass.hosts ht) hrest
    obtain ⟨hfound, hpublished⟩ := ih (hpass.sound hs) (hpass.hosts ht) hrest
    have hlater : (c.now.published cells).Sublist rest :=
      (hpass.later.published_sublist cells).trans hfound
    rw [World.published_cons, World.published_cons]
    constructor
    · refine List.Sublist.append ?_ hlater
      unfold World.report?
      cases hr : c.now.result? cell with
      | none => exact List.nil_sublist _
      | some o' =>
        cases (resolve?_of_result? hr).symm.trans hresolve
        exact List.Sublist.refl _
    · refine List.Sublist.append ?_ hpublished
      cases o with
      | none => exact List.nil_sublist _
      | some o =>
        have hresult := hpass₁.later.result? (result?_of_resolve? hrun hs ht hresolve)
        rw [World.report?, hresult]

theorem published_of_collect (hrun : LawfulRunner p run) (hs : c.now.Sound p)
    (ht : c.now.Hosts at_.thread) (h : collect p run at_ bag c = .ok ds c') :
    (Diagnostic.inReportOrder (c.now.published (c.now.bags bag))).Sublist ds ∧
      ds.Sublist (Diagnostic.inReportOrder (c'.now.published (c.now.bags bag))) := by
  obtain ⟨found, hfound, rfl⟩ := collect_eq_ok h
  obtain ⟨hbefore, hafter⟩ := published_of_resolveEach hrun hs ht hfound
  exact ⟨Diagnostic.inReportOrder_sublist hbefore, Diagnostic.inReportOrder_sublist hafter⟩

/-- In a session, a walk returns all that an earlier walk over the same bag has returned, unchanged
and in the same order. -/
theorem collect_sublist (hrun : LawfulRunner p run) (hs : c.now.Sound p)
    (ht : c.now.Hosts at_.thread) (h : collect p run at_ bag c = .ok ds c₁)
    (hl : c₁.now.Later c₂.now) (hrun' : LawfulRunner p run') (hs₂ : c₂.now.Sound p)
    (ht₂ : c₂.now.Hosts at_'.thread) (h' : collect p run' at_' bag c₂ = .ok ds' c₃) :
    ds.Sublist ds' := by
  have hpass := (lawful_collect hrun bag).ok hs ht h
  have hpublished : (c₁.now.published (c.now.bags bag)).Sublist
      (c₂.now.published (c₂.now.bags bag)) :=
    (hl.published_sublist _).trans
      (((hpass.later.trans hl).bags bag).sublist.filterMap _)
  calc List.Sublist ds (Diagnostic.inReportOrder (c₁.now.published (c.now.bags bag))) :=
        (published_of_collect hrun hs ht h).2
    List.Sublist _ (Diagnostic.inReportOrder (c₂.now.published (c₂.now.bags bag))) :=
        Diagnostic.inReportOrder_sublist hpublished
    List.Sublist _ ds' := (published_of_collect hrun' hs₂ ht₂ h').1

end

end Session
end Deferral
