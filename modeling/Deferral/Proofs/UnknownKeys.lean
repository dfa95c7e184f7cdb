/-
# Keys that are no field

A closed record refuses a key that is no field, wherever it stands: what is read before it may be
faulty itself, and nothing is read behind it. An open record skips the value of such a key. Options
are closed, but the policy in them and the rules of the policy are open, so a text of options gives
the same with and without further keys in these.

Key definitions: `Json.Members.HasKey`, `Json.Members.only`, `Options.pruned`.
Key theorems: `Json.RecordShape.refuses_unknown`, `Json.RecordShape.readMembers_only`,
`Options.decode_pruned`, `unknown_keys_read`.
-/
import Mathlib
import Deferral.Options.Json

namespace Deferral

open Json

namespace Json

/-! ### Members without some keys -/

/-- A member that was read has this key. -/
def Members.HasKey (key : String) : Members → Prop
  | .member k _ rest => k = some key ∨ rest.HasKey key
  | _ => False

/-- The members whose keys are among the names. A key that could not be read stays. -/
def Members.only (names : List String) : Members → Members
  | .member (some key) value rest =>
    if names.contains key then .member (some key) value (rest.only names) else rest.only names
  | .member none value rest => .member none value (rest.only names)
  | members => members

/-- The members with each value of a key replaced. -/
def Members.atKey (name : String) (f : Doc → Doc) : Members → Members
  | .member key value rest =>
    .member key (if key = some name then f value else value) (rest.atKey name f)
  | members => members

/-- The items, each replaced. -/
def Items.map (f : Doc → Doc) : Items → Items
  | .more value rest => .more (f value) (rest.map f)
  | items => items

theorem Members.skip_member {key : Option String} {value : Doc} {rest : Members}
    (h : (Members.member key value rest).skip = .ok ()) :
    value.skip = .ok () ∧ rest.skip = .ok () := by
  rw [Members.skip] at h
  split at h
  · exact ⟨by assumption, h⟩
  · cases h

theorem Items.skip_more {value : Doc} {rest : Items} (h : (Items.more value rest).skip = .ok ()) :
    value.skip = .ok () ∧ rest.skip = .ok () := by
  rw [Items.skip] at h
  split at h
  · exact ⟨by assumption, h⟩
  · cases h

namespace RecordShape

variable {ρ α : Type} {s : RecordShape ρ α} {members : Members}

/-- The names of the fields. -/
def names (s : RecordShape ρ α) : List String := s.fields.map (·.name)

theorem find?_eq_none {key : String} :
    s.fields.find? (·.name == key) = none ↔ key ∉ s.names := by
  rw [List.find?_eq_none, names, List.mem_map, not_exists]
  simp

/-- **A closed record refuses a key that is no field.** -/
theorem refuses_unknown {key : String} (hclosed : s.closed = true) (hunknown : key ∉ s.names)
    (h : members.HasKey key) (r : ρ) : ∃ fault, s.readMembers r members = .error fault := by
  -- What follows the key is never read, and a fault in front of it is a fault all the same.
  fun_induction s.readMembers r members with
  | case1 | case2 | case3 | case4 | case5 => exact h.elim
  | case6 | case7 | case9 | case10 => exact ⟨_, rfl⟩
  | case8 r k value rest field hfind _ r' _ ih =>
    rcases h with hk | hrest
    · rw [Option.some.inj hk, find?_eq_none.mpr hunknown] at hfind
      cases hfind
    · exact ih hrest
  | case11 _ _ _ _ _ hopen | case12 _ _ _ _ _ hopen => exact absurd hclosed hopen

/-- **An open record ignores the keys that are no field.** -/
theorem readMembers_only (hopen : s.closed = false) (hskip : members.skip = .ok ()) (r : ρ) :
    s.readMembers r (members.only s.names) = s.readMembers r members := by
  fun_induction members.only s.names generalizing r with
  | case1 key value rest hknown ih =>
    have hrest := (Members.skip_member hskip).2
    simp only [readMembers, ih hrest]
  | case2 key value rest hunknown ih =>
    obtain ⟨hvalue, hrest⟩ := Members.skip_member hskip
    have hfind : s.fields.find? (·.name == key) = none := by
      rw [find?_eq_none]
      simpa using hunknown
    rw [ih hrest, readMembers, hfind]
    simp only [hopen, hvalue, Bool.false_eq_true, if_false]
  | case3 value rest ih => rfl
  | case4 => rfl

theorem skip_only (names : List String) (hskip : members.skip = .ok ()) :
    (members.only names).skip = .ok () := by
  fun_induction members.only names with
  | case1 key value rest hknown ih =>
    obtain ⟨hvalue, hrest⟩ := Members.skip_member hskip
    rw [Members.skip, hvalue]
    exact ih hrest
  | case2 key value rest hunknown ih => exact ih (Members.skip_member hskip).2
  | case3 value rest ih =>
    obtain ⟨hvalue, hrest⟩ := Members.skip_member hskip
    rw [Members.skip, hvalue]
    exact ih hrest
  | case4 => exact hskip

/-- Another value that the field reads alike may stand at a key. -/
theorem readMembers_atKey {name : String} {f : Doc → Doc} {field : Field ρ}
    (hfind : s.fields.find? (·.name == name) = some field)
    (hread : ∀ value r, value.skip = .ok () → field.read (f value) r = field.read value r)
    (hskip : members.skip = .ok ()) (r : ρ) :
    s.readMembers r (members.atKey name f) = s.readMembers r members := by
  fun_induction members.atKey name f generalizing r with
  | case1 key value rest ih =>
    obtain ⟨hvalue, hrest⟩ := Members.skip_member hskip
    cases key with
    | none => rfl
    | some key =>
      by_cases hkey : key = name
      · subst hkey
        simp only [readMembers, hfind, if_true, hread value r hvalue, ih hrest]
      · have hsome : some key ≠ some name := fun h => hkey (Option.some.inj h)
        simp only [readMembers, if_neg hsome, ih hrest]
  | case2 => rfl

end RecordShape

/-- Items that are decoded alike may take each other's place. -/
theorem Items.decode_map {α : Type} {item : Decoder α} {f : Doc → Doc}
    (h : ∀ value : Doc, value.skip = .ok () → item (f value) = item value) {items : Items}
    (hskip : items.skip = .ok ()) : (items.map f).decode item = items.decode item := by
  fun_induction items.map f with
  | case1 value rest ih =>
    obtain ⟨hvalue, hrest⟩ := Items.skip_more hskip
    rw [Items.decode, Items.decode, h value hvalue, ih hrest]
  | case2 => rfl

end Json

/-! ### Options, policies and rules -/

/-- A rule without the keys that are no field. -/
def Rule.pruned : Doc → Doc
  | .object members => .object (members.only Rule.shape.names)
  | d => d

/-- Rules without the keys that are no field. -/
def Rule.prunedAll : Doc → Doc
  | .array items => .array (items.map Rule.pruned)
  | d => d

/-- A policy without the keys that are no field, in itself and in its rules. -/
def Policy.pruned : Doc → Doc
  | .object members => .object ((members.only Policy.shape.names).atKey "rules" Rule.prunedAll)
  | d => d

/-- Options without the keys that are no field in their policy and its rules. -/
def Options.pruned : Doc → Doc
  | .object members => .object (members.atKey "policy" Policy.pruned)
  | d => d

theorem Rule.decode_pruned (d : Doc) (hskip : d.skip = .ok ()) :
    Rule.decode (Rule.pruned d) = Rule.decode d := by
  cases d with
  | object members =>
    rw [Rule.pruned, Rule.decode, RecordShape.decode, RecordShape.readMembers_only rfl hskip]
    rfl
  | _ => rfl

theorem Rule.asList_prunedAll (d : Doc) (hskip : d.skip = .ok ()) :
    (Rule.prunedAll d).asList Rule.decode = d.asList Rule.decode := by
  cases d with
  | array items => exact Items.decode_map Rule.decode_pruned hskip
  | _ => rfl

theorem Policy.decode_pruned (d : Doc) (hskip : d.skip = .ok ()) :
    Policy.decode (Policy.pruned d) = Policy.decode d := by
  cases d with
  | object members =>
    have honly := RecordShape.skip_only Policy.shape.names hskip
    rw [Policy.pruned, Policy.decode, RecordShape.decode, RecordShape.readMembers_atKey rfl _ honly,
      RecordShape.readMembers_only rfl hskip]
    · rfl
    · intro value r hvalue
      simp only [Rule.asList_prunedAll value hvalue]
  | _ => rfl

theorem Options.decode_pruned (d : Doc) (hskip : d.skip = .ok ()) :
    Options.decode (Options.pruned d) = Options.decode d := by
  cases d with
  | object members =>
    rw [Options.pruned, Options.decode, RecordShape.decode,
      RecordShape.readMembers_atKey rfl _ hskip]
    · rfl
    · intro value r hvalue
      simp only [Policy.decode_pruned value hvalue]
  | _ => rfl

/-- What options a text gives depends on its document. -/
theorem Options.ofText?_congr {text text' : String} {doc doc' : Doc}
    (h : Json.read text = (doc, true)) (h' : Json.read text' = (doc', true))
    (hdecode : Options.decode doc = Options.decode doc') :
    Options.ofText? text = Options.ofText? text' := by
  simp only [Options.ofText?, decodeText, h, h', hdecode]

/-- A document that does not give options makes its text malformed. -/
theorem Options.ofText?_of_error {text : String} {fault : Fault}
    (h : Options.decode (Json.read text).1 = .error fault) :
    Options.ofText? text = .error (.malformed fault) := by
  simp only [Options.ofText?, decodeText, h]

/-- **Options refuse a key that is no field, and policies and rules ignore it.** A text whose object
has such a key is malformed, whatever else it holds. Two texts that are JSON, and whose documents
are the same without such keys in the policies and their rules, give the same. -/
theorem unknown_keys_read {text : String} :
    (∀ members key, (Json.read text).1 = .object members → members.HasKey key →
      key ∉ Options.shape.names → ∃ fault, Options.ofText? text = .error (.malformed fault)) ∧
    ∀ (text' : String) (doc doc' : Doc), Json.read text = (doc, true) →
      Json.read text' = (doc', true) → doc.skip = .ok () → doc'.skip = .ok () →
      Options.pruned doc = Options.pruned doc' → Options.ofText? text = Options.ofText? text' := by
  constructor
  · intro members key hread hkey hunknown
    obtain ⟨fault, hfault⟩ :=
      RecordShape.refuses_unknown rfl hunknown hkey Options.shape.blank
    refine ⟨fault, Options.ofText?_of_error ?_⟩
    rw [hread, Options.decode, RecordShape.decode, hfault]
  · intro text' doc doc' hread hread' hskip hskip' hpruned
    refine Options.ofText?_congr hread hread' ?_
    rw [← Options.decode_pruned doc hskip, hpruned, Options.decode_pruned doc' hskip']

/-- Options with a key of their own that is no field. -/
def strictText : String := "\x7b\"polcy\":1\x7d"

/-- Options with a rule for doc comments. -/
def plainText : String :=
  "\x7b\"policy\":\x7b\"rules\":[\x7b\"when\":\"IN_DOC_COMMENT\",\"verdict\":\"report\"\x7d]\x7d\x7d"

/-- The same options with a further key in the rule, and with one in the policy. -/
def laxText : String :=
  "\x7b\"policy\":\x7b\"rules\":[\x7b\"when\":\"IN_DOC_COMMENT\",\"verdict\":\"report\"," ++
    "\"site\":true\x7d],\"default\":null\x7d\x7d"

/-- The document of the rule, with further members. -/
def ruleDoc (rest : Members) : Doc :=
  .object (.member (some "when") (.string "IN_DOC_COMMENT")
    (.member (some "verdict") (.string "report") rest))

/-- The document of the options with one rule, and with further members of the policy. -/
def policyDoc (rule : Doc) (rest : Members) : Doc :=
  .object (.member (some "policy")
    (.object (.member (some "rules") (.array (.more rule .close)) rest)) .close)

theorem read_plainText : Json.read plainText = (policyDoc (ruleDoc .close) .close, true) := by cbv

theorem read_laxText :
    Json.read laxText =
      (policyDoc (ruleDoc (.member (some "site") (.bool true) .close))
        (.member (some "default") .null .close), true) := by cbv

theorem unknown_keys_read_lax :
    (∃ fault, Options.ofText? strictText = .error (.malformed fault)) ∧
      Options.ofText? laxText = Options.ofText? plainText := by
  constructor
  · exact unknown_keys_read.1 (.member (some "polcy") (.number (.natural 1)) .close) "polcy"
      (by cbv) (.inl rfl) (by decide)
  · exact unknown_keys_read.2 plainText _ _ read_laxText read_plainText rfl rfl (by cbv)

/-- Keys that are no field, in a policy and in a rule, do not make a text malformed. -/
theorem lax_text_accepted :
    Json.read laxText =
        (policyDoc (ruleDoc (.member (some "site") (.bool true) .close))
          (.member (some "default") .null .close), true) ∧
      "site" ∉ Rule.shape.names ∧ "default" ∉ Policy.shape.names ∧
      Options.ofText? laxText = .ok ⟨⟨[⟨.inDocComment, .report⟩]⟩, true, true⟩ :=
  ⟨read_laxText, by decide, by decide, by cbv⟩

end Deferral
