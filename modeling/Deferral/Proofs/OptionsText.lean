/-
# Options are read back from their text

What is written for a verdict, a rule, a policy and options is read as the same again. A text of
options that is JSON and fits is refused for its rules alone: where some rule has no flags, the
fault names the first such rule.

Key theorems: `Rule.decode_doc`, `Policy.decode_doc`, `Options.decode_doc`, `options_read_back`.
-/
import Mathlib
import Deferral.Options.Json
import Deferral.Proofs.FlagText
import Deferral.Proofs.JsonText

namespace Deferral

open Json

variable {o : Options} {text : String}

/-! ### What is written is read -/

@[simp] theorem Verdict.decode_word (v : Verdict) : Verdict.decode (.string v.word) = .ok v := by
  cases v <;> rfl

@[simp] theorem Json.Doc.asFlags_text (f : SiteFlags) : (Doc.string f.text).asFlags = .ok f := by
  simp only [Doc.asFlags, Doc.asText, SiteFlags.ofText?_text]

@[simp] theorem Json.Doc.asBool_bool (b : Bool) : (Doc.bool b).asBool = .ok b := rfl

theorem Rule.decode_doc (r : Rule) : Rule.decode r.toJson.doc = .ok r := by
  simp [Rule.toJson, Value.doc, docMembers, Rule.decode, RecordShape.decode, Rule.shape,
    RecordShape.readMembers, require, bind, Except.bind, pure, Except.pure]

theorem Rule.decode_items (rules : List Rule) :
    (docItems (rules.map Rule.toJson)).decode Rule.decode = .ok rules := by
  induction rules with
  | nil => rfl
  | cons r rules ih => simp [docItems, Items.decode, Rule.decode_doc, ih]

theorem Policy.decode_doc (p : Policy) : Policy.decode p.toJson.doc = .ok p := by
  simp [Policy.toJson, Value.doc, docMembers, Policy.decode, RecordShape.decode, Policy.shape,
    RecordShape.readMembers, Doc.asList, Rule.decode_items, require, bind, Except.bind, pure,
    Except.pure]

theorem Options.decode_doc (o : Options) : Options.decode o.toJson.doc = .ok o := by
  simp [Options.toJson, Value.doc, docMembers, Options.decode, RecordShape.decode, Options.shape,
    RecordShape.readMembers, Policy.decode_doc, OptionsParts.complete, bind, Except.bind, pure,
    Except.pure]

/-- Nothing in the JSON form of options is a number. -/
theorem Options.toJson_fits (o : Options) : o.toJson.Fits := by
  have hrules : ∀ rules : List Rule, itemsFit (rules.map Rule.toJson) := by
    intro rules
    induction rules with
    | nil => trivial
    | cons r rules ih => exact ⟨⟨trivial, trivial, trivial⟩, ih⟩
  exact ⟨⟨hrules o.policy.rules, trivial⟩, trivial, trivial, trivial⟩

/-- The text of options gives them, before their rules are checked. -/
theorem Options.decodeText_text (o : Options) : decodeText Options.decode o.text = .ok o := by
  rw [decodeText, Options.text, read_text o.toJson_fits]
  simp only [Options.decode_doc, if_true]

/-! ### Rules without flags -/

/-- The rule at this index is the first one without flags. -/
structure Options.FirstEmpty (o : Options) (index : Nat) : Prop where
  here : ∃ r, o.policy.rules[index]? = some r ∧ r.flags = .empty
  before : ∀ j < index, ∀ r, o.policy.rules[j]? = some r → r.flags ≠ .empty

theorem SiteFlags.isEmpty_iff (f : SiteFlags) : f.isEmpty = true ↔ f = .empty :=
  ⟨eq_empty_of_isEmpty, by rintro rfl; rfl⟩

theorem Options.firstEmptyRule?_eq_none :
    o.firstEmptyRule? = none ↔ ∀ r ∈ o.policy.rules, r.flags ≠ .empty := by
  rw [Options.firstEmptyRule?, List.findIdx?_eq_none_iff]
  simp only [← SiteFlags.isEmpty_iff, ne_eq, Bool.not_eq_true]

theorem Options.firstEmpty_of_eq_some {i : Nat} (h : o.firstEmptyRule? = some i) :
    o.FirstEmpty i := by
  rw [Options.firstEmptyRule?, List.findIdx?_eq_some_iff_getElem] at h
  obtain ⟨hi, hempty, hbefore⟩ := h
  refine ⟨⟨_, List.getElem?_eq_getElem hi, (SiteFlags.isEmpty_iff _).mp hempty⟩, ?_⟩
  intro j hj r hr hflags
  obtain ⟨hlt, rfl⟩ := List.getElem?_eq_some_iff.mp hr
  exact hbefore j hj ((SiteFlags.isEmpty_iff _).mpr hflags)

theorem Options.ofText?_text_of_none (h : o.firstEmptyRule? = none) :
    Options.ofText? o.text = .ok o := by
  simp only [Options.ofText?, Options.decodeText_text, h]

theorem Options.ofText?_text_of_some {i : Nat} (h : o.firstEmptyRule? = some i) :
    Options.ofText? o.text = .error (.emptyRule i) := by
  simp only [Options.ofText?, Options.decodeText_text, h]

/-- Options that are read from a text have passed the check of their rules. -/
theorem Options.firstEmptyRule?_of_ofText? (h : Options.ofText? text = .ok o) :
    o.firstEmptyRule? = none := by
  unfold Options.ofText? at h
  split at h
  · cases h
  split at h
  · cases h
  · cases h
    assumption

/-- **Options are read back from their text.** Options in which each rule has a flag are read as
they were written. Other options are refused, and the fault names the first rule without flags.
Whatever text options are read from, they have no such rule, and what is written for them is read as
the same options. -/
theorem options_read_back :
    (∀ o : Options, (∀ r ∈ o.policy.rules, r.flags ≠ .empty) → Options.ofText? o.text = .ok o) ∧
      (∀ o : Options, (∃ r ∈ o.policy.rules, r.flags = .empty) →
        ∃ i, o.FirstEmpty i ∧ Options.ofText? o.text = .error (.emptyRule i)) ∧
      ∀ (text : String) (o : Options), Options.ofText? text = .ok o →
        (∀ r ∈ o.policy.rules, r.flags ≠ .empty) ∧ Options.ofText? o.text = .ok o := by
  refine ⟨fun o h => ?_, fun o h => ?_, fun text o h => ?_⟩
  · exact Options.ofText?_text_of_none (Options.firstEmptyRule?_eq_none.mpr h)
  · obtain ⟨r, hr, hempty⟩ := h
    cases hfirst : o.firstEmptyRule? with
    | none => exact absurd hempty (Options.firstEmptyRule?_eq_none.mp hfirst r hr)
    | some i =>
      exact ⟨i, Options.firstEmpty_of_eq_some hfirst, Options.ofText?_text_of_some hfirst⟩
  · have hnone := Options.firstEmptyRule?_of_ofText? h
    exact ⟨Options.firstEmptyRule?_eq_none.mp hnone, Options.ofText?_text_of_none hnone⟩

/-- Options with a rule of two named flags and a bit without a name. -/
def mixedOptions : Options :=
  ⟨⟨[⟨⟨0x1003⟩, .report⟩, ⟨.inDeprecatedMember, .suppress⟩]⟩, true, false⟩

/-- Options whose second rule has no flags. -/
def emptyRuleOptions : Options := ⟨⟨[⟨⟨0x1003⟩, .report⟩, ⟨.empty, .suppress⟩]⟩, true, false⟩

/-- A text that leaves out all but the policy, and is written with blanks. -/
def sparseText : String := "\x7b \"policy\": \x7b\"rules\": []\x7d \x7d"

theorem options_read_back_mixed :
    ((∀ r ∈ mixedOptions.policy.rules, r.flags ≠ .empty) ∧
        Options.ofText? mixedOptions.text = .ok mixedOptions) ∧
      ((∃ r ∈ emptyRuleOptions.policy.rules, r.flags = .empty) ∧
        ∃ i, emptyRuleOptions.FirstEmpty i ∧
          Options.ofText? emptyRuleOptions.text = .error (.emptyRule i)) ∧
      Options.ofText? sparseText = .ok ⟨.empty, true, true⟩ ∧
      Options.ofText? (⟨.empty, true, true⟩ : Options).text = .ok ⟨.empty, true, true⟩ := by
  have hmixed : ∀ r ∈ mixedOptions.policy.rules, r.flags ≠ .empty := by decide
  have hempty : ∃ r ∈ emptyRuleOptions.policy.rules, r.flags = .empty := by decide
  have hsparse : Options.ofText? sparseText = .ok ⟨.empty, true, true⟩ := by cbv
  exact ⟨⟨hmixed, options_read_back.1 _ hmixed⟩, ⟨hempty, options_read_back.2.1 _ hempty⟩, hsparse,
    (options_read_back.2.2 _ _ hsparse).2⟩

end Deferral
