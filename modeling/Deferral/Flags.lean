/-
# Flags of a reference site

What is known about a site when a reference is recorded there: sixteen bits,
six of them named. Bits without a name are kept and never lost.

Key definitions: `SiteFlags`, `SiteFlags.contains`, `SiteFlags.named`,
`SiteFlags.all`.
-/

namespace Deferral

/-- A set of facts about a reference site, one per bit. -/
structure SiteFlags where
  bits : UInt16
deriving DecidableEq, Inhabited

namespace SiteFlags

/-- No flag. -/
def empty : SiteFlags := ⟨0⟩

/-- The enclosing scope disables deprecation checks. -/
def suppressDeprecation : SiteFlags := ⟨1⟩

/-- The site is already known to be inside a deprecated member. -/
def inDeprecatedMember : SiteFlags := ⟨2⟩

/-- The site is inside an attribute argument. -/
def inAttributeArgument : SiteFlags := ⟨4⟩

/-- The site is generated code. -/
def inGeneratedCode : SiteFlags := ⟨8⟩

/-- The site is inside a documentation comment. -/
def inDocComment : SiteFlags := ⟨16⟩

/-- The enclosing scope opts in to experimental declarations. -/
def suppressExperimental : SiteFlags := ⟨32⟩

/-- The flags that have a name, in the order in which they are written. -/
def named : List (String × SiteFlags) :=
  [("SUPPRESS_DEPRECATION", suppressDeprecation),
    ("IN_DEPRECATED_MEMBER", inDeprecatedMember),
    ("IN_ATTRIBUTE_ARGUMENT", inAttributeArgument),
    ("IN_GENERATED_CODE", inGeneratedCode),
    ("IN_DOC_COMMENT", inDocComment),
    ("SUPPRESS_EXPERIMENTAL", suppressExperimental)]

def union (a b : SiteFlags) : SiteFlags := ⟨a.bits ||| b.bits⟩

def intersection (a b : SiteFlags) : SiteFlags := ⟨a.bits &&& b.bits⟩

/-- The flags of `a` that are not in `b`. -/
def difference (a b : SiteFlags) : SiteFlags := ⟨a.bits &&& ~~~b.bits⟩

def isEmpty (a : SiteFlags) : Bool := a.bits == 0

/-- Every flag of `b` is in `a`. -/
def contains (a b : SiteFlags) : Bool := a.bits &&& b.bits == b.bits

/-- Some flag is in both. -/
def intersects (a b : SiteFlags) : Bool := a.bits &&& b.bits != 0

/-- The union of the named flags. -/
def all : SiteFlags := (named.map (·.2)).foldl union empty

/-- The union of a list of flag sets. -/
def unions (sets : List SiteFlags) : SiteFlags := sets.foldl union empty

end SiteFlags
end Deferral
