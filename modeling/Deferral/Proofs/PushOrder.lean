/-
# The order of pushes

Threads that race push onto a bag in some order or other. What an entry has to report does not
depend on that order: a diagnostic that is known reports itself, and a check reports what the
entities end with. So the walks after two orders of the same pushes find the same diagnostics, and
sorting brings them into the same order but for ties. A report is ordered by file, range, code and
message; diagnostics that agree on these and differ otherwise, say in severity, stay in the order in
which they were pushed.

A walk at top level never leaves an entry undecided, and it breaks off only with a binder that it
starts. That is shown along the walk, from the pursuit of one check outwards. Where steps are plain,
the walk ends, so such a binder has failed.

Key definitions: `Diagnostic.SameReport`, `Session.Content`, `Session.World.Bears`, `Session.Push`,
`Session.BinderBreaksOff`.
Key theorems: `Diagnostic.sameReport_of_perm`, `Session.yields_of_collect`, `Session.collect_error`,
`Session.session_pushes`, `Session.ends_collect`, `Session.pushes_in_any_order`.
-/
import Mathlib
import Deferral.Proofs.TopLevel

namespace Deferral

/-! ### Reports of the same diagnostics -/

namespace Diagnostic

variable {a a' b b' : Diagnostic} {ds ds' : List Diagnostic}

/-- What a report is ordered by. -/
def key (d : Diagnostic) : Span × String × String := (d.primary, d.code, d.message)

/-- The order depends on the keys alone. -/
theorem order_congr (ha : a.key = a'.key) (hb : b.key = b'.key) : order a b = order a' b' := by
  simp only [key, Prod.mk.injEq] at ha hb
  simp only [order, ha, hb]

theorem order_eq_iff : order a b = .eq ↔ a.key = b.key := by
  obtain ⟨_, _, _, ⟨_, ⟨_, _⟩⟩, _, _, _⟩ := a
  obtain ⟨_, _, _, ⟨_, ⟨_, _⟩⟩, _, _, _⟩ := b
  simp [order, key, Ordering.then_eq_eq, and_assoc]

theorem sorted_inReportOrder (ds : List Diagnostic) :
    (inReportOrder ds).Pairwise fun a b => (order a b).isLE = true :=
  List.pairwise_mergeSort (fun _ _ _ => Std.TransCmp.isLE_trans) (isLE_total order) ds

theorem inReportOrder_perm (h : ds.Perm ds') : (inReportOrder ds).Perm (inReportOrder ds') :=
  ((List.mergeSort_perm ds _).trans h).trans (List.mergeSort_perm ds' _).symm

/-- A diagnostic with the key `k` may come before one with the key `k'`. -/
def KeyLE (k k' : Span × String × String) : Prop :=
  ∃ a b : Diagnostic, a.key = k ∧ b.key = k' ∧ (order a b).isLE = true

/-- The keys of a report do not depend on the order in which the diagnostics came. -/
theorem map_key_inReportOrder (h : ds.Perm ds') :
    (inReportOrder ds).map key = (inReportOrder ds').map key := by
  have hsorted : ∀ l : List Diagnostic, ((inReportOrder l).map key).Pairwise KeyLE := fun l =>
    List.pairwise_map.mpr ((sorted_inReportOrder l).imp fun hab => ⟨_, _, rfl, rfl, hab⟩)
  refine List.Perm.eq_of_pairwise ?_ (hsorted ds) (hsorted ds') ((inReportOrder_perm h).map key)
  rintro k k' - - ⟨a, b, rfl, rfl, hab⟩ ⟨b', a', hb, ha, hba⟩
  rw [order_congr hb ha] at hba
  exact order_eq_iff.mp (Std.OrientedCmp.isLE_antisymm hab hba)

/-- If no two different diagnostics have the same key, then there is one report of them. -/
theorem inReportOrder_eq_of_perm (h : ds.Perm ds')
    (hkey : ∀ a ∈ inReportOrder ds, ∀ b ∈ inReportOrder ds, a.key = b.key → a = b) :
    inReportOrder ds = inReportOrder ds' := by
  have hperm := inReportOrder_perm h
  refine hperm.eq_of_pairwise ?_ (sorted_inReportOrder ds) (sorted_inReportOrder ds')
  intro a b ha hb hab hba
  exact hkey a ha b (hperm.mem_iff.mpr hb)
    (order_eq_iff.mp (Std.OrientedCmp.isLE_antisymm hab hba))

/-- Two reports of the same diagnostics. Those that agree on file, range, code and message may come
in another order. -/
structure SameReport (ds ds' : List Diagnostic) : Prop where
  perm : ds.Perm ds'
  keys : ds.map key = ds'.map key
  eq : (∀ a ∈ ds, ∀ b ∈ ds, a.key = b.key → a = b) → ds = ds'

theorem sameReport_of_perm (h : ds.Perm ds') :
    SameReport (inReportOrder ds) (inReportOrder ds') :=
  ⟨inReportOrder_perm h, map_key_inReportOrder h, inReportOrder_eq_of_perm h⟩

end Diagnostic

namespace Session

variable {p : Program} {run : Runner} {at_ : Scope} {w w' : World} {c c' : Course}
variable {cell : Nat} {bag : String} {ds : List Diagnostic} {x : Interruption}

/-! ### Contents of a bag -/

/-- What is pushed onto a bag: a diagnostic, or the check of a reference. -/
inductive Content where
  | known (d : Diagnostic)
  | check (rule : CheckRule) (candidate : Nat) (ctx : Context) (opts : Options)

/-- The diagnostic with this number is the one that was pushed. -/
def World.Holds (w : World) (cell : Nat) : Content → Prop
  | .known d => ∃ o, w.cells[cell]? = some (.known o) ∧ o.value = .report d
  | .check rule candidate ctx opts =>
    ∃ slot calls, w.cells[cell]? = some (.deferred (.check rule candidate ctx opts) slot calls)

/-- The check is of a reference between entities with binders. -/
def Content.Sourced (p : Program) : Content → Prop
  | .known _ => True
  | .check _ candidate ctx _ => ∀ e ∈ candidate :: p.chain ctx.containing, p.IsSource e

/-- What it has to report, if anything, by what the entities end with. -/
def Content.Yields (p : Program) : Content → Option Diagnostic → Prop
  | .known d, r => r = some d
  | .check rule candidate ctx opts, r => ∃ f, p.Finds rule candidate ctx opts f ∧ r = f.diagnostic?

theorem Content.yields_unique {content : Content} {r r' : Option Diagnostic}
    (h : content.Yields p r) (h' : content.Yields p r') : r' = r := by
  cases content with
  | known d => exact Eq.trans h' (Eq.symm h)
  | check rule candidate ctx opts =>
    obtain ⟨f, hf, rfl⟩ := h
    obtain ⟨f', hf', rfl⟩ := h'
    rw [finds_unique hf hf']

theorem Content.exists_yields (p : Program) (content : Content) : ∃ r, content.Yields p r := by
  cases content with
  | known d => exact ⟨_, rfl⟩
  | check rule candidate ctx opts =>
    obtain ⟨f, hf⟩ := exists_finds p rule candidate ctx opts
    exact ⟨_, f, hf, rfl⟩

theorem World.Holds.later {content : Content} (h : w.Holds cell content) (hl : w.Later w') :
    w'.Holds cell content := by
  cases content with
  | known d =>
    obtain ⟨o, hc, ho⟩ := h
    obtain ⟨_, hc', rfl⟩ := hl.cells cell _ hc
    exact ⟨o, hc', ho⟩
  | check rule candidate ctx opts =>
    obtain ⟨slot, calls, hc⟩ := h
    obtain ⟨_, hc', slot', calls', rfl, -⟩ := hl.cells cell _ hc
    exact ⟨slot', calls', hc'⟩

/-- What is resolved has to report what it yields. -/
theorem World.Holds.yields {content : Content} (h : w.Holds cell content) (hs : w.Sound p)
    {o : Shared Finding} (ho : w.result? cell = some o) : content.Yields p (w.report? cell) := by
  rw [World.report?, ho]
  cases content with
  | known d =>
    obtain ⟨o', hc, hvalue⟩ := h
    rw [World.result?, hc] at ho
    cases ho
    rw [Option.bind_some, hvalue]
    rfl
  | check rule candidate ctx opts =>
    obtain ⟨slot, calls, hc⟩ := h
    rw [World.result?, hc] at ho
    exact ⟨o.value, hs.cells _ (List.mem_of_getElem? hc) o ho, rfl⟩

/-- The diagnostics with these numbers are those that were pushed, in this order. -/
def World.Bears (w : World) (cells : List Nat) (contents : List Content) : Prop :=
  List.Forall₂ w.Holds cells contents

theorem World.Bears.later {cells : List Nat} {contents : List Content} (h : w.Bears cells contents)
    (hl : w.Later w') : w'.Bears cells contents :=
  h.imp fun _ _ hcell => hcell.later hl

theorem World.Bears.sourced {cells : List Nat} {contents : List Content}
    (h : w.Bears cells contents) (hsrc : ∀ content ∈ contents, content.Sourced p) :
    w.Sourced p cells := by
  induction h with
  | nil => intro cell hm; cases hm
  | @cons cell content cells contents hcell _ ih =>
    intro i hi
    rcases List.mem_cons.mp hi with rfl | hi
    · have hcontent := hsrc content List.mem_cons_self
      cases content with
      | known d =>
        obtain ⟨o, hc, -⟩ := hcell
        exact ⟨_, hc, trivial⟩
      | check rule candidate ctx opts =>
        obtain ⟨slot, calls, hc⟩ := hcell
        exact ⟨_, hc, hcontent⟩
    · exact ih (fun k hk => hsrc k (List.mem_cons_of_mem _ hk)) i hi

/-- What is resolved has published what its contents yield. -/
theorem World.Bears.published {cells : List Nat} {contents : List Content}
    (h : w.Bears cells contents) (hs : w.Sound p)
    (hresolved : ∀ cell ∈ cells, ∃ o, w.result? cell = some o) {out : Content → Option Diagnostic}
    (hout : ∀ content : Content, content.Yields p (out content)) :
    w.published cells = contents.filterMap out := by
  induction h with
  | nil => rfl
  | @cons cell content cells contents hcell _ ih =>
    obtain ⟨o, ho⟩ := hresolved cell List.mem_cons_self
    have hhead := Content.yields_unique (hout content) (hcell.yields hs ho)
    have hrest := ih fun i hi => hresolved i (List.mem_cons_of_mem _ hi)
    rw [World.published] at hrest ⊢
    rw [List.filterMap_cons, List.filterMap_cons, hhead, hrest]

/-! ### Walks over a bag -/

section

variable {contents contents' : List Content}

/-- A walk that begins while no binder runs reports what the contents of the bag yield. -/
theorem yields_of_collect (hp : p.Sourced) (hlaw : LawfulRunner p run)
    (hground : GroundedRunner p run) (hg : c.now.Grounded p at_.thread) (hidle : c.now.Idle)
    (hbag : c.now.Bears (c.now.bags bag) contents)
    (hsrc : ∀ content ∈ contents, content.Sourced p) {out : Content → Option Diagnostic}
    (hout : ∀ content : Content, content.Yields p (out content))
    (h : collect p run at_ bag c = .ok ds c') :
    ds = Diagnostic.inReportOrder (contents.filterMap out) := by
  obtain ⟨rfl, hresolved⟩ :=
    resolved_of_collect hp hlaw hground hg hidle (hbag.sourced hsrc) h
  have hpass := (lawful_collect hlaw bag).ok hg.sound hg.hosts h
  rw [(hbag.later hpass.later).published (hpass.sound hg.sound) hresolved hout]

theorem Act.bind_eq_error {α β : Type} {act : Act α} {f : α → Act β}
    (h : (act >>= f) c = .error x c') :
    act c = .error x c' ∨ ∃ a c₁, act c = .ok a c₁ ∧ f a c₁ = .error x c' := by
  cases hc : act c with
  | ok a c₁ =>
    rw [Act.bind_of_ok hc] at h
    exact .inr ⟨a, c₁, rfl, h⟩
  | error y c₁ =>
    rw [Act.bind_of_error hc] at h
    cases h
    exact .inl rfl

/-- What a pursuit breaks off with, a binder that it starts breaks off with. -/
theorem pursueCheck_error {rule : CheckRule} {candidate : Nat} {ctx : Context} {opts : Options}
    (hlaw : LawfulRunner p run) (hsrc : ∀ e ∈ candidate :: p.chain ctx.containing, p.IsSource e)
    (hs : c.now.Sound p) (ht : c.now.Hosts at_.thread) (hidle : c.now.Idle)
    (h : pursueCheck p run at_ rule candidate ctx opts c = .error x c') :
    BreaksOff p run at_ (p.reference candidate ctx) c x c' := by
  have hends : EndsShort p run at_ (p.entity candidate).name rule opts (p.reference candidate ctx) c
      (pursue (host p run at_ (p.entity candidate).name) (rule.standing opts)
        (p.reference candidate ctx) c) :=
    pursue_endsShort (p.entity candidate).name hlaw hsrc hs ht (hidle.alone at_.thread _)
  rcases Act.bind_eq_error h with hp | ⟨⟨ending, rounds⟩, c₁, hp, hrest⟩
  · rw [hp] at hends
    exact hends.2
  · rw [hp] at hends
    cases ending with
    | decided d => cases hrest
    | undecided => cases hrest
    | stalled k => exact absurd hends id

theorem emit_suffix {e : TraceEntry} {u : Unit} (h : emit at_ e c = .ok u c') :
    c.worlds <:+ c'.worlds := by
  unfold emit at h
  split at h
  · cases h
    exact List.suffix_cons _ _
  · cases h
    exact List.suffix_rfl

/-- From `c` to `c₁` nothing has happened but tracing. -/
structure Course.Traces (c c₁ : Course) : Prop where
  path : c.worlds <:+ c₁.worlds
  log : ∃ log, c₁.now = { c.now with log }

/-- What breaks off inside a span breaks off behind the entry of the span. -/
theorem inSpan_error {α : Type} {name : String} {fields : List (String × FieldValue)}
    {body : Act α} (h : inSpan at_ name fields body c = .error x c') :
    ∃ c₁ c₂, c.Traces c₁ ∧ body c₁ = .error x c₂ ∧ c₂.worlds <:+ c'.worlds := by
  obtain ⟨c₁, log, h₁, hnow⟩ := emit_runs at_ ⟨.span, name, fields⟩ c
  cases hb : body c₁ with
  | ok a c₂ =>
    obtain ⟨c₃, -, h₃, -⟩ := emit_runs at_ ⟨.exit, name, []⟩ c₂
    rw [inSpan_of_ok h₁ hb h₃] at h
    cases h
  | error y c₂ =>
    obtain ⟨c₃, -, h₃, -⟩ := emit_runs at_ ⟨.exit, name, []⟩ c₂
    rw [inSpan_of_error h₁ hb h₃] at h
    cases h
    exact ⟨c₁, c₂, ⟨emit_suffix h₁, log, hnow⟩, hb, emit_suffix h₃⟩

/-- A check breaks off in its pursuit. -/
theorem compute_check_error {call candidate : Nat} {rule : CheckRule} {ctx : Context}
    {opts : Options} (h : compute p run at_ call (.check rule candidate ctx opts) c = .error x c') :
    ∃ c₁ c₂, c.Traces c₁ ∧ pursueCheck p run at_ rule candidate ctx opts c₁ = .error x c₂ ∧
      c₂.worlds <:+ c'.worlds := by
  cases rule with
  | deprecation =>
    obtain ⟨c₁, c₂, htrace, h, hpassed⟩ := inSpan_error h
    rcases Act.bind_eq_error h with hp | ⟨s, c₃, -, hrest⟩
    · exact ⟨c₁, c₂, htrace, hp, hpassed⟩
    · rcases s with _ | ⟨d, n⟩
      · cases hrest
      · rcases Act.bind_eq_error hrest with hemit | ⟨u, c₄, -, htail⟩
        · obtain ⟨c₅, -, h₅, -⟩ := emit_runs at_
            ⟨.record, "lazy_diag.resolve_deprecation", [("rounds", .number n)]⟩ c₃
          cases h₅.symm.trans hemit
        · cases d <;> cases htail
  | experimental =>
    obtain ⟨c₁, c₂, htrace, h, hpassed⟩ := inSpan_error h
    rcases Act.bind_eq_error h with hp | ⟨s, c₃, -, hrest⟩
    · exact ⟨c₁, c₂, htrace, hp, hpassed⟩
    · rcases s with _ | ⟨_ | _, n⟩ <;> cases hrest

/-- On its way from `c` to `c'` a walk has started a binder for one of the contents, and breaks off
with it. -/
def BinderBreaksOff (p : Program) (run : Runner) (at_ : Scope) (contents : List Content)
    (c : Course) (x : Interruption) (c' : Course) : Prop :=
  ∃ rule candidate ctx opts, Content.check rule candidate ctx opts ∈ contents ∧
    BreaksOff p run at_ (p.reference candidate ctx) c x c'

theorem BinderBreaksOff.mono {c₁ : Course} (h : BinderBreaksOff p run at_ contents c₁ x c')
    (hsub : ∀ content ∈ contents, content ∈ contents') (hp : c.worlds <:+ c₁.worlds) :
    BinderBreaksOff p run at_ contents' c x c' := by
  obtain ⟨rule, candidate, ctx, opts, hm, hoff⟩ := h
  exact ⟨rule, candidate, ctx, opts, hsub _ hm, hoff.within hp List.suffix_rfl⟩

theorem resolve?_error {content : Content} (hlaw : LawfulRunner p run) (hs : c.now.Sound p)
    (ht : c.now.Hosts at_.thread) (hidle : c.now.Idle) (hcell : c.now.Holds cell content)
    (hsrc : content.Sourced p) (h : resolve? p run at_ cell c = .error x c') :
    BinderBreaksOff p run at_ [content] c x c' := by
  obtain ⟨comp, slot, calls, hc, -, hcomp⟩ := resolve?_eq_error h
  cases content with
  | known d =>
    obtain ⟨o, hknown, -⟩ := hcell
    rw [hknown] at hc
    cases hc
  | check rule candidate ctx opts =>
    obtain ⟨_, _, hcheck⟩ := hcell
    rw [hcheck] at hc
    cases hc
    -- The pursuit starts after the call has been counted and a span has been entered. Neither
    -- changes which binders there are to start.
    have hcount := passage_count hs hcheck
    obtain ⟨c₁, c₂, ⟨htrace, log, hlog⟩, hpursue, hpassed⟩ := compute_check_error hcomp
    have hagree :
        (c.counting cell (.check rule candidate ctx opts) slot calls).now.Agrees c₁.now := by
      rw [hlog]
      exact ⟨rfl, rfl, rfl, Nat.le_refl _⟩
    have hlater : c.now.Later c₁.now :=
      hcount.later.trans (.of_eq hagree.bindings hagree.cells hagree.bags hagree.nextThread)
    have hs₁ := (hcount.sound hs).of_eq hagree.bindings hagree.cells hagree.nextThread
    have hoff := pursueCheck_error hlaw hsrc hs₁ (ht.later hlater) (hidle.later hlater) hpursue
    exact ⟨rule, candidate, ctx, opts, List.mem_singleton_self _,
      hoff.within (hcount.suffix.trans htrace) hpassed⟩

/-- A walk that begins while no binder runs breaks off only with a binder that it starts. -/
theorem resolveEach_error (hlaw : LawfulRunner p run) {cells : List Nat} (hs : c.now.Sound p)
    (ht : c.now.Hosts at_.thread) (hidle : c.now.Idle) (hbears : c.now.Bears cells contents)
    (hsrc : ∀ content ∈ contents, content.Sourced p)
    (h : resolveEach p run at_ cells c = .error x c') :
    BinderBreaksOff p run at_ contents c x c' := by
  induction cells generalizing c contents with
  | nil => cases h
  | cons cell cells ih =>
    obtain ⟨content, contents, hcell, hcells, rfl⟩ := List.forall₂_cons_left_iff.mp hbears
    rw [resolveEach_cons] at h
    rcases Act.bind_eq_error h with hfirst | ⟨o, c₁, hfirst, hrest⟩
    · have hoff := resolve?_error hlaw hs ht hidle hcell (hsrc content List.mem_cons_self) hfirst
      exact hoff.mono (by simp) List.suffix_rfl
    · have hpass := (lawful_resolve? hlaw cell).ok hs ht hfirst
      rcases Act.bind_eq_error hrest with hothers | ⟨_, _, -, hreturn⟩
      · have hoff := ih (hpass.sound hs) (hpass.hosts ht) (hidle.later hpass.later)
          (World.Bears.later hcells hpass.later) (fun k hk => hsrc k (List.mem_cons_of_mem _ hk))
          hothers
        exact hoff.mono (fun k hk => List.mem_cons_of_mem _ hk) hpass.suffix
      · cases hreturn

theorem collect_error (hlaw : LawfulRunner p run) (hs : c.now.Sound p)
    (ht : c.now.Hosts at_.thread) (hidle : c.now.Idle)
    (hbag : c.now.Bears (c.now.bags bag) contents)
    (hsrc : ∀ content ∈ contents, content.Sourced p)
    (h : collect p run at_ bag c = .error x c') : BinderBreaksOff p run at_ contents c x c' := by
  rw [collect, Act.get_bind] at h
  rcases Act.bind_eq_error h with hwalk | ⟨_, _, -, hreturn⟩
  · exact resolveEach_error hlaw hs ht hidle hbag hsrc hwalk
  · cases hreturn

end

/-! ### Pushes -/

/-- What is pushed: a diagnostic, or one that was made before and has a name. -/
inductive Pushed where
  | known (d : Diagnostic)
  | made (diag : String)

/-- The action that pushes it. -/
def Pushed.action (bag : String) : Pushed → Action
  | .known d => .pushKnown d bag
  | .made diag => .push diag bag

/-- A push, by the main thread or by a thread of its own. -/
structure Push where
  pushed : Pushed
  elsewhere : Bool

/-- The step that makes the push. -/
def Push.step (bag : String) (push : Push) : Step :=
  if push.elsewhere then .guarded (.spawn [.guarded (push.pushed.action bag)])
  else .guarded (push.pushed.action bag)

/-- In this world the content is what is pushed. -/
def World.Offers (w : World) : Pushed → Content → Prop
  | .known d, content => content = .known d
  | .made diag, content => ∃ cell, w.names.lookup diag = some cell ∧ w.Holds cell content

/-- Nothing has been completed or demanded, and the diagnostics that have been made are known. -/
structure World.OnlyAdds (w w' : World) : Prop where
  bindings : w'.bindings = w.bindings
  demands : w'.demands = w.demands
  known : ∀ d ∈ w'.cells, d ∈ w.cells ∨ ∃ o, d = .known o

namespace World.OnlyAdds

theorem refl (w : World) : w.OnlyAdds w := ⟨rfl, rfl, fun _ hd => .inl hd⟩

theorem trans {w'' : World} (h : w.OnlyAdds w') (h' : w'.OnlyAdds w'') : w.OnlyAdds w'' where
  bindings := h'.bindings.trans h.bindings
  demands := h'.demands.trans h.demands
  known d hd := (h'.known d hd).elim (h.known d) .inr

theorem unfinished_eq (h : w.OnlyAdds w') : p.unfinished w' = p.unfinished w := by
  unfold Program.unfinished
  rw [finished_congr h.bindings h.demands]

theorem isPlain (h : w.OnlyAdds w') (hw : ∀ d ∈ w.cells, d.isPlain = true) :
    ∀ d ∈ w'.cells, d.isPlain = true := by
  intro d hd
  rcases h.known d hd with hd | ⟨o, rfl⟩
  · exact hw d hd
  · rfl

end World.OnlyAdds

/-- The bag has one more entry, and what was made before is as it was. -/
structure World.Gains (w w' : World) (bag : String) (content : Content) : Prop where
  names : w'.names = w.names
  onlyAdds : w.OnlyAdds w'
  cells : w.cells <+: w'.cells
  bag : ∃ cell, w'.bags bag = w.bags bag ++ [cell] ∧ w'.Holds cell content

theorem World.Holds.of_cells {content : Content} (h : w.Holds cell content)
    (hc : w.cells <+: w'.cells) : w'.Holds cell content := by
  have hget : ∀ d, w.cells[cell]? = some d → w'.cells[cell]? = some d := by
    rintro d hd
    obtain ⟨more, hmore⟩ := hc
    rw [← hmore, List.getElem?_append_left (List.getElem?_eq_some_iff.mp hd).1, hd]
  cases content with
  | known d =>
    obtain ⟨o, hcell, ho⟩ := h
    exact ⟨o, hget _ hcell, ho⟩
  | check rule candidate ctx opts =>
    obtain ⟨slot, calls, hcell⟩ := h
    exact ⟨slot, calls, hget _ hcell⟩

theorem World.Gains.offers {content k : Content} {pushed : Pushed} (h : w.Gains w' bag content)
    (hoffers : w.Offers pushed k) : w'.Offers pushed k := by
  cases pushed with
  | known d => exact hoffers
  | made diag =>
    obtain ⟨cell, hname, hcell⟩ := hoffers
    exact ⟨cell, h.names ▸ hname, hcell.of_cells h.cells⟩

/-- A push puts its content at the end of the bag. -/
theorem answer_pushed {pushed : Pushed} {content : Content} (h : c.now.Offers pushed content) :
    ∃ a c', answer p run at_ (pushed.action bag) c = .ok a c' ∧ c.now.Gains c'.now bag content := by
  cases pushed with
  | known d =>
    obtain rfl : content = .known d := h
    have hadds : ∀ o, c.now.OnlyAdds { c.now with cells := c.now.cells ++ [.known o] } := fun o =>
      ⟨rfl, rfl, fun d hd => (List.mem_append.mp hd).imp id fun hd => ⟨o, List.mem_singleton.mp hd⟩⟩
    refine ⟨_, _, rfl, rfl, ⟨rfl, rfl, (hadds _).known⟩, List.prefix_append _ _,
      c.now.cells.length, if_pos rfl, ?_⟩
    exact ⟨_, List.getElem?_concat_length, rfl⟩
  | made diag =>
    obtain ⟨cell, hname, hcell⟩ := h
    have hfind : findCell diag c = .ok cell c := by
      rw [findCell, Act.get_bind, hname]
      rfl
    refine ⟨_, _, Act.bind_of_ok hfind, rfl, ⟨rfl, rfl, fun _ hd => .inl hd⟩, List.prefix_rfl, cell,
      if_pos rfl, ?_⟩
    exact hcell.of_cells List.prefix_rfl

theorem World.Gains.log {content : Content} (h : w.Gains w' bag content) (log : List Entry) :
    w.Gains { w' with log } bag content where
  names := h.names
  onlyAdds := h.onlyAdds.trans ⟨rfl, rfl, fun _ hd => .inl hd⟩
  cells := h.cells
  bag := by
    obtain ⟨cell, hbag, hcell⟩ := h.bag
    exact ⟨cell, hbag, hcell.of_cells List.prefix_rfl⟩

theorem perform_guarded {action : Action} {a : Answer} (h : answer p run at_ action c = .ok a c') :
    perform p run at_ (.guarded action) c =
      .ok ⟨⟩ (c'.goOn (c'.now.note (.step action.name at_.within a))) :=
  Act.bind_of_ok (Act.tryCatch_of_ok h)

theorem perform_pushed {pushed : Pushed} {content : Content} (h : c.now.Offers pushed content) :
    ∃ c', perform p run at_ (.guarded (pushed.action bag)) c = .ok ⟨⟩ c' ∧
      c.now.Gains c'.now bag content := by
  obtain ⟨a, c', hanswer, hgains⟩ := answer_pushed h
  exact ⟨_, perform_guarded hanswer, hgains.log _⟩

/-- A push that is made on a thread of its own does the same. -/
theorem perform_push {depth : Nat} {push : Push} {content : Content}
    (h : c.now.Offers push.pushed content) :
    ∃ c', perform p (performAll p (depth + 1)) at_ (push.step bag) c = .ok ⟨⟩ c' ∧
      c.now.Gains c'.now bag content := by
  unfold Push.step
  split
  · -- The thread begins with an empty log and gives it back at the end, so that the bag and the
    -- diagnostics are all it changes.
    have hlaunch : c.launching.now.Offers push.pushed content := by
      cases hp : push.pushed <;> rw [hp] at h <;> exact h
    have hinner : ∃ c₁, perform p (performAll p depth) ⟨c.now.nextThread, []⟩
        (.guarded (push.pushed.action bag)) c.launching = .ok ⟨⟩ c₁ ∧
          c.launching.now.Gains c₁.now bag content := perform_pushed hlaunch
    obtain ⟨c₁, hstep, hgains⟩ := hinner
    have hbody : performAll p (depth + 1) ⟨c.now.nextThread, []⟩
        [.guarded (push.pushed.action bag)] c.launching = .ok ⟨⟩ c₁ := Act.bind_of_ok hstep
    have hthread : onThread (fun at_ => performAll p (depth + 1) at_
        [.guarded (push.pushed.action bag)]) c =
          .ok (⟨⟩, c₁.now.log.reverse) (c₁.goOn { c₁.now with log := c.now.log }) :=
      onThread_of_ok hbody
    have hanswer : answer p (performAll p (depth + 1)) at_
        (.spawn [.guarded (push.pushed.action bag)]) c =
          .ok (.thread c₁.now.log.reverse) (c₁.goOn { c₁.now with log := c.now.log }) :=
      Act.tryCatch_of_ok (Act.bind_of_ok hthread)
    have hlaunched : c.now.OnlyAdds c.launching.now := ⟨rfl, rfl, fun _ hd => .inl hd⟩
    have hstart : c.now.Gains c₁.now bag content :=
      ⟨hgains.names, hlaunched.trans hgains.onlyAdds, hgains.cells, hgains.bag⟩
    exact ⟨_, perform_guarded hanswer, (hstart.log _).log _⟩
  · exact perform_pushed h

/-- Pushes put their contents at the end of the bag, in their order. -/
theorem performEach_pushes {depth : Nat} {pushes : List Push} {held contents : List Content}
    (hbag : c.now.Bears (c.now.bags bag) held)
    (h : List.Forall₂ (fun push content => c.now.Offers push.pushed content) pushes contents) :
    ∃ c', performEach p (performAll p (depth + 1)) at_ (pushes.map (Push.step bag)) c =
        .ok ⟨⟩ c' ∧ c.now.OnlyAdds c'.now ∧ c'.now.Bears (c'.now.bags bag) (held ++ contents) := by
  induction pushes generalizing c held contents with
  | nil =>
    rw [List.forall₂_nil_left_iff.mp h, List.append_nil]
    exact ⟨c, rfl, .refl _, hbag⟩
  | cons push pushes ih =>
    obtain ⟨content, contents, hfirst, hothers, rfl⟩ := List.forall₂_cons_left_iff.mp h
    have hstep : ∃ c₁, perform p (performAll p (depth + 1)) at_ (push.step bag) c = .ok ⟨⟩ c₁ ∧
        c.now.Gains c₁.now bag content := perform_push hfirst
    obtain ⟨c₁, hpush, hgains⟩ := hstep
    obtain ⟨cell, hcells, hcell⟩ := hgains.bag
    have hbag₁ : c₁.now.Bears (c₁.now.bags bag) (held ++ [content]) := by
      rw [hcells]
      exact List.rel_append (hbag.imp fun _ _ hk => hk.of_cells hgains.cells) (.cons hcell .nil)
    obtain ⟨c', hrest, hadds, hbag'⟩ := ih hbag₁ (hothers.imp fun _ _ hk => hgains.offers hk)
    rw [List.append_assoc, List.singleton_append] at hbag'
    exact ⟨c', (Act.bind_of_ok hpush).trans hrest, hgains.onlyAdds.trans hadds, hbag'⟩

/-- A session that goes on with pushes ends with their contents in the bag. -/
theorem session_pushes {depth : Nat} {before : List Step} {pushes : List Push}
    {held contents : List Content} (hc : p.session (depth + 2) before = .ok ⟨⟩ c)
    (hbag : c.now.Bears (c.now.bags bag) held)
    (h : List.Forall₂ (fun push content => c.now.Offers push.pushed content) pushes contents) :
    ∃ c', p.session (depth + 2) (before ++ pushes.map (Push.step bag)) = .ok ⟨⟩ c' ∧
      c.now.OnlyAdds c'.now ∧ c'.now.Bears (c'.now.bags bag) (held ++ contents) := by
  have hpushes : ∃ c', performEach p (performAll p (depth + 1)) topLevel
      (pushes.map (Push.step bag)) c = .ok ⟨⟩ c' ∧ c.now.OnlyAdds c'.now ∧
        c'.now.Bears (c'.now.bags bag) (held ++ contents) := performEach_pushes hbag h
  obtain ⟨c', hperform, hadds, hbag'⟩ := hpushes
  refine ⟨c', ?_, hadds, hbag'⟩
  have hfirst : performEach p (performAll p (depth + 1)) topLevel before ⟨World.initial p, []⟩ =
      .ok ⟨⟩ c := hc
  have happend : performEach p (performAll p (depth + 1)) topLevel
      (before ++ pushes.map (Push.step bag)) ⟨World.initial p, []⟩ = .ok ⟨⟩ c' := by
    rw [performEach_append, Act.bind_of_ok hfirst, hperform]
  exact happend

theorem session_grounded (hp : p.Sourced) {depth : Nat} {steps : List Step}
    (h : p.session depth steps = .ok ⟨⟩ c) : c.now.Grounded p mainThread := by
  have hcourse := Act.course_of_ok (show performAll p depth topLevel steps _ = .ok ⟨⟩ c from h)
  have hmem : c.now ∈ p.moments depth steps := by
    rw [Program.moments, ← topLevel, hcourse]
    exact List.mem_cons_self
  exact grounded_of_mem_moments hp hmem

theorem exists_forall₂ {α β : Type} {R : α → β → Prop} {P : β → Prop} {l : List α}
    (h : ∀ a ∈ l, ∃ b, P b ∧ R a b) : ∃ l', List.Forall₂ R l l' ∧ ∀ b ∈ l', P b := by
  induction l with
  | nil => exact ⟨[], .nil, by simp⟩
  | cons a l ih =>
    obtain ⟨b, hb, hab⟩ := h a List.mem_cons_self
    obtain ⟨l', hl, hall⟩ := ih fun x hx => h x (List.mem_cons_of_mem _ hx)
    exact ⟨b :: l', .cons hab hl, List.forall_mem_cons.mpr ⟨hb, hall⟩⟩

/-- The walk over the bag returns, unless a binder breaks off that it starts for a check in it. -/
def ReturnsUnlessBroken (p : Program) (within : Nat) (bag : String) (c : Course) : Prop :=
  ∀ x c', collect p (performAll p within) topLevel bag c = .error x c' →
    ∃ contents, c.now.Bears (c.now.bags bag) contents ∧
      BinderBreaksOff p (performAll p within) topLevel contents c x c'

/-- Where no binder runs and no diagnostic has steps of its own, a walk at top level ends, if steps
may be nested as deep as there are unfinished entities. -/
theorem ends_collect (hp : p.Plain) {within : Nat} (hs : c.now.Sound p)
    (ht : c.now.Hosts mainThread) (hidle : c.now.Idle)
    (hcells : ∀ d ∈ c.now.cells, d.isPlain = true) (hle : p.unfinished c.now ≤ within) :
    Ends (collect p (performAll p within) topLevel bag c) := by
  have hroom : Room p topLevel within c.now :=
    ⟨hs, ht, fun e t he => absurd he (hidle e t), hcells,
      Nat.le_trans (p.idle_le_unfinished c.now) hle⟩
  have hnests : Nests p topLevel within (collect p (performAll p within) topLevel bag)
      (collect p (performApart p within) topLevel bag) :=
    (nestingWithin hp (Nat.le_refl within) topLevel).collect bag
  exact hnests.ends c hroom

/-- **Reports do not depend on the order of pushes, but for ties.** After a session has ended, let
the same pushes reach a bag in two orders, from whatever threads: of known diagnostics, and of
checks of references between entities with binders. A walk over the bag at top level then returns
unless a binder breaks off that it starts. Where steps are plain, and may be nested as deep as there
are unfinished entities, such a binder has failed: nothing is nested too deep, and nothing waits. If
both walks return, they report the same diagnostics, and those that agree on file, range, code and
message may come in another order. -/
theorem pushes_in_any_order (hp : p.Sourced) {depth : Nat} {before : List Step}
    (hc : p.session (depth + 2) before = .ok ⟨⟩ c)
    (hbag : ∀ cell ∈ c.now.bags bag, ∃ content : Content, content.Sourced p ∧
      c.now.Holds cell content)
    {pushes pushes' : List Push}
    (hpushes : ∀ push ∈ pushes, ∃ content : Content, content.Sourced p ∧
      c.now.Offers push.pushed content)
    (hperm : pushes.Perm pushes') :
    ∃ c₁ c₂, p.session (depth + 2) (before ++ pushes.map (Push.step bag)) = .ok ⟨⟩ c₁ ∧
      p.session (depth + 2) (before ++ pushes'.map (Push.step bag)) = .ok ⟨⟩ c₂ ∧
      ∀ within, ReturnsUnlessBroken p within bag c₁ ∧ ReturnsUnlessBroken p within bag c₂ ∧
        (p.Plain → (∀ d ∈ c.now.cells, d.isPlain = true) → p.unfinished c.now ≤ within →
          Ends (collect p (performAll p within) topLevel bag c₁) ∧
            Ends (collect p (performAll p within) topLevel bag c₂)) ∧
        ∀ ds ds' d₁ d₂, collect p (performAll p within) topLevel bag c₁ = .ok ds d₁ →
          collect p (performAll p within) topLevel bag c₂ = .ok ds' d₂ →
            Diagnostic.SameReport ds ds' := by
  obtain ⟨held, hheld, hsrc⟩ := exists_forall₂ hbag
  obtain ⟨contents, hcontents, hsrc₁⟩ := exists_forall₂ hpushes
  -- What is pushed has its content before any push, so the contents are permuted with the pushes.
  obtain ⟨contents', hcontents', hperm'⟩ := List.perm_comp_forall₂ hperm.symm hcontents
  obtain ⟨c₁, h₁, hadds₁, hbears₁⟩ := session_pushes hc hheld hcontents
  obtain ⟨c₂, h₂, hadds₂, hbears₂⟩ := session_pushes hc hheld hcontents'
  have hsources : ∀ content ∈ held ++ contents, content.Sourced p :=
    List.forall_mem_append.mpr ⟨hsrc, hsrc₁⟩
  have hsources' : ∀ content ∈ held ++ contents', content.Sourced p :=
    List.forall_mem_append.mpr ⟨hsrc, fun k hk => hsrc₁ k (hperm'.mem_iff.mp hk)⟩
  have hg₁ := session_grounded hp h₁
  have hg₂ := session_grounded hp h₂
  refine ⟨c₁, c₂, h₁, h₂, fun within => ⟨?_, ?_, fun hplain hcells hle => ⟨?_, ?_⟩, ?_⟩⟩
  · exact fun x d hx => ⟨_, hbears₁, collect_error (lawful_performAll p within) hg₁.sound hg₁.hosts
      (session_idle h₁) hbears₁ hsources hx⟩
  · exact fun x d hx => ⟨_, hbears₂, collect_error (lawful_performAll p within) hg₂.sound hg₂.hosts
      (session_idle h₂) hbears₂ hsources' hx⟩
  · exact ends_collect hplain hg₁.sound hg₁.hosts (session_idle h₁) (hadds₁.isPlain hcells)
      (hadds₁.unfinished_eq.trans_le hle)
  · exact ends_collect hplain hg₂.sound hg₂.hosts (session_idle h₂) (hadds₂.isPlain hcells)
      (hadds₂.unfinished_eq.trans_le hle)
  · -- What a content yields is chosen once for both walks.
    intro ds ds' d₁ d₂ hds hds'
    choose out hout using Content.exists_yields p
    have hlaw := lawful_performAll p within
    have hground := grounded_performAll hp within
    have hfirst : ds = Diagnostic.inReportOrder ((held ++ contents).filterMap out) :=
      yields_of_collect hp hlaw hground hg₁ (session_idle h₁) hbears₁ hsources hout hds
    have hsecond : ds' = Diagnostic.inReportOrder ((held ++ contents').filterMap out) :=
      yields_of_collect hp hlaw hground hg₂ (session_idle h₂) hbears₂ hsources' hout hds'
    rw [hfirst, hsecond]
    exact Diagnostic.sameReport_of_perm ((hperm'.symm.append_left held).filterMap out)

/-- An old method and an experimental one, which are completed on demand. -/
def ageing : Program where
  entities :=
    [⟨0, "Old", .method, none, ⟨some .plain, false⟩, .source true false .plain⟩,
      ⟨1, "New", .method, none, ⟨none, true⟩, .source true false .plain⟩]

/-- The site of the second use. -/
def laterSite : Context := { openSite with site := ⟨0, ⟨2, 3⟩⟩ }

/-- The site of the first use, in generated code. -/
def generatedUse : Context := { openSite with flags := .inGeneratedCode }

/-- A use of either, and one in generated code. -/
def ageingUses : List Step :=
  [.guarded (.check "old" .deprecation 0 openSite .standard),
    .guarded (.check "new" .experimental 1 laterSite .standard),
    .guarded (.check "generated" .deprecation 0 generatedUse .standard)]

/-- Where a session ends that has made these. -/
def ageingStart : Course :=
  (performAll ageing 2 topLevel ageingUses).course ⟨World.initial ageing, []⟩

/-- Where the session ends that goes on with pushes onto a bag. -/
def ageingCourse (pushes : List Push) : Course :=
  (performAll ageing 2 topLevel (ageingUses ++ pushes.map (Push.step "uses"))).course
    ⟨World.initial ageing, []⟩

/-- A walk over the bag. -/
def ageingWalk : Act (List Diagnostic) := collect ageing (performAll ageing 2) topLevel "uses"

theorem session_ageing {pushes : List Push}
    (h : ageing.session 2 (ageingUses ++ pushes.map (Push.step "uses")) = .ok ⟨⟩ c) :
    ageingCourse pushes = c :=
  Act.course_of_ok (show performAll ageing 2 topLevel _ _ = .ok ⟨⟩ c from h)

/-- Three pushes, one of them on the main thread. -/
def ageingPushes : List Push :=
  [⟨.made "old", false⟩, ⟨.known (Walks.reportAt 1), true⟩, ⟨.made "new", true⟩]

theorem offers_ageing : ∀ push ∈ ageingPushes, ∃ content : Content, content.Sourced ageing ∧
    ageingStart.now.Offers push.pushed content := by
  have hnames : ageingStart.now.names = [("generated", 2), ("new", 1), ("old", 0)] := by cbv
  have hcells : ageingStart.now.cells =
      [.deferred (.check .deprecation 0 openSite .standard) .empty 0,
        .deferred (.check .experimental 1 laterSite .standard) .empty 0,
        .deferred (.check .deprecation 0 generatedUse .standard) .empty 0] := by
    cbv
  have hold : ∀ e ∈ 0 :: ageing.chain openSite.containing, ageing.IsSource e := by decide
  have hnew : ∀ e ∈ 1 :: ageing.chain laterSite.containing, ageing.IsSource e := by decide
  intro push hm
  simp only [ageingPushes, List.mem_cons, List.not_mem_nil, or_false] at hm
  rcases hm with rfl | rfl | rfl
  · refine ⟨.check .deprecation 0 openSite .standard, hold, 0, ?_, .empty, 0, ?_⟩
    · rw [hnames]
      decide
    · rw [hcells]
      rfl
  · exact ⟨.known (Walks.reportAt 1), trivial, rfl⟩
  · refine ⟨.check .experimental 1 laterSite .standard, hnew, 1, ?_, .empty, 0, ?_⟩
    · rw [hnames]
      decide
    · rw [hcells]
      rfl

theorem session_ageingStart : ageing.session 2 ageingUses = .ok ⟨⟩ ageingStart := by
  have hends : (performAll ageing 2 topLevel ageingUses).interruption?
      ⟨World.initial ageing, []⟩ = none := by cbv
  obtain ⟨⟨⟩, hstart⟩ := Act.eq_ok_of_interruption? hends
  exact hstart

/-- The uses are reported alike, in whichever order they were pushed. -/
theorem pushes_in_any_order_ageing :
    ageing.Sourced ∧ ageing.session 2 ageingUses = .ok ⟨⟩ ageingStart ∧
      (∀ cell ∈ ageingStart.now.bags "uses", ∃ content : Content, content.Sourced ageing ∧
        ageingStart.now.Holds cell content) ∧
      (∀ push ∈ ageingPushes, ∃ content : Content, content.Sourced ageing ∧
        ageingStart.now.Offers push.pushed content) ∧
      ageingPushes.Perm ageingPushes.reverse ∧ ageing.Plain ∧
      (∀ d ∈ ageingStart.now.cells, d.isPlain = true) ∧ ageing.unfinished ageingStart.now = 2 ∧
      ∃ c₁ c₂,
        ageing.session 2 (ageingUses ++ ageingPushes.map (Push.step "uses")) = .ok ⟨⟩ c₁ ∧
        ageing.session 2 (ageingUses ++ ageingPushes.reverse.map (Push.step "uses")) = .ok ⟨⟩ c₂ ∧
        Ends (ageingWalk c₁) ∧ Ends (ageingWalk c₂) ∧
        ∃ ds d₁ ds' d₂, ageingWalk c₁ = .ok ds d₁ ∧ ageingWalk c₂ = .ok ds' d₂ ∧
          ds.map (·.code) = ["DEP0001", "EXP0001", "EXP0001"] ∧ Diagnostic.SameReport ds ds' := by
  have hp : ageing.Sourced := by decide
  have hempty : ageingStart.now.bags "uses" = [] := by cbv
  have hbag : ∀ cell ∈ ageingStart.now.bags "uses", ∃ content : Content, content.Sourced ageing ∧
      ageingStart.now.Holds cell content := by
    rw [hempty]
    intro cell hm
    cases hm
  have hperm : ageingPushes.Perm ageingPushes.reverse := (List.reverse_perm _).symm
  have hplain : ageing.Plain := by decide
  have hcells : ageingStart.now.cells.all Cell.isPlain = true := by cbv
  have hn : ageing.unfinished ageingStart.now = 2 := by cbv
  obtain ⟨c₁, c₂, h₁, h₂, hwalks⟩ :=
    pushes_in_any_order hp session_ageingStart hbag offers_ageing hperm
  have hcodes : (ageingWalk.answer? (ageingCourse ageingPushes)).map (·.map (·.code)) =
      some ["DEP0001", "EXP0001", "EXP0001"] := by cbv
  have hends : ageingWalk.interruption? (ageingCourse ageingPushes.reverse) = none := by cbv
  rw [session_ageing h₁] at hcodes
  rw [session_ageing h₂] at hends
  obtain ⟨ds, hds, hmap⟩ := Option.map_eq_some_iff.mp hcodes
  obtain ⟨ds', hds'⟩ := Act.eq_ok_of_interruption? hends
  have hwalk : ageingWalk c₁ = .ok ds (ageingWalk.course c₁) := Act.eq_ok_of_answer? hds
  obtain ⟨-, -, hreturn, hsame⟩ := hwalks 2
  obtain ⟨hfirst, hsecond⟩ := hreturn hplain (List.all_eq_true.mp hcells) (Nat.le_of_eq hn)
  exact ⟨hp, session_ageingStart, hbag, offers_ageing, hperm, hplain, List.all_eq_true.mp hcells,
    hn, c₁, c₂, h₁, h₂, hfirst, hsecond, ds, _, ds', _, hwalk, hds', hmap,
    hsame ds ds' _ _ hwalk hds'⟩

theorem severities_ageing (pushes : List Push) (severities : List Severity)
    (hends : (performAll ageing 2 topLevel (ageingUses ++ pushes.map (Push.step "uses"))
      ).interruption? ⟨World.initial ageing, []⟩ = none)
    (hwalk : (ageingWalk.answer? (ageingCourse pushes)).map (·.map (·.severity)) =
      some severities) :
    ∃ c ds d, ageing.session 2 (ageingUses ++ pushes.map (Push.step "uses")) = .ok ⟨⟩ c ∧
      ageingWalk c = .ok ds d ∧ ds.map (·.severity) = severities := by
  obtain ⟨⟨⟩, hsession⟩ := Act.eq_ok_of_interruption? hends
  obtain ⟨ds, hds, hmap⟩ := Option.map_eq_some_iff.mp hwalk
  exact ⟨_, ds, _, hsession, Act.eq_ok_of_answer? hds, hmap⟩

/-- Of two uses of the old method that agree on file, range, code and message, the one that was
pushed first comes first, be it the warning or the note. -/
theorem ties_keep_push_order :
    ageing.Sourced ∧ ∃ c₁ c₂ ds d₁ ds' d₂,
      ageing.session 2 (ageingUses ++ [⟨.made "old", false⟩, ⟨.made "generated", false⟩].map
        (Push.step "uses")) = .ok ⟨⟩ c₁ ∧
      ageing.session 2 (ageingUses ++ [⟨.made "generated", false⟩, ⟨.made "old", false⟩].map
        (Push.step "uses")) = .ok ⟨⟩ c₂ ∧
      ageingWalk c₁ = .ok ds d₁ ∧ ageingWalk c₂ = .ok ds' d₂ ∧
      ds.map (·.severity) = [.warning, .note] ∧ ds'.map (·.severity) = [.note, .warning] := by
  obtain ⟨c₁, ds, d₁, h₁, hwalk, hmap⟩ := severities_ageing
    [⟨.made "old", false⟩, ⟨.made "generated", false⟩] [.warning, .note] (by cbv) (by cbv)
  obtain ⟨c₂, ds', d₂, h₂, hwalk', hmap'⟩ := severities_ageing
    [⟨.made "generated", false⟩, ⟨.made "old", false⟩] [.note, .warning] (by cbv) (by cbv)
  exact ⟨by decide, c₁, c₂, ds, d₁, ds', d₂, h₁, h₂, hwalk, hwalk', hmap, hmap'⟩

end Session
end Deferral
