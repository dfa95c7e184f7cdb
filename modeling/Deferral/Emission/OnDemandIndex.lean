/-
# Indexes built on first use

An index is built from a snapshot of entries when it is first asked for, and
kept until it is dropped. Several builds may be under way at once; the first
to end is kept, and the others are dropped and counted.

Key definitions: `Emission.OnDemandIndex`, `Emission.OnDemandIndex.offer`,
`Emission.IndexStep`, `Emission.OnDemandIndex.perform`.
-/
import Deferral.Emission.UniqueIndex
import Deferral.WriteOnce
import Deferral.Text.Quoted
import Deferral.Trace

namespace Deferral
namespace Emission

/-- An index that is built on first use, the key of the next object, and the trace of its builds,
latest entry first. -/
structure OnDemandIndex (κ α : Type) where
  built : WriteOnce (UniqueIndex κ α)
  nextKey : Nat
  trace : List TraceEntry

/-- A built index that may be held by several parties. -/
abbrev SharedIndex (κ α : Type) := Shared (UniqueIndex κ α)

namespace OnDemandIndex

variable {κ α : Type}

/-- Not built. -/
def empty : OnDemandIndex κ α := ⟨.empty, 0, []⟩

/-- The index is built. -/
def isBuilt (d : OnDemandIndex κ α) : Bool := d.built.isFilled

/-- The span of a build. -/
def buildSpan : String := "emit_test_data.build_index"

/-- Adds an entry to the trace. -/
def emit (d : OnDemandIndex κ α) (t : TraceEntry) : OnDemandIndex κ α :=
  { d with trace := t :: d.trace }

/-- A build begins. -/
def enter (d : OnDemandIndex κ α) : OnDemandIndex κ α := d.emit ⟨.span, buildSpan, []⟩

/-- A build ends. -/
def leave (d : OnDemandIndex κ α) : OnDemandIndex κ α := d.emit ⟨.exit, buildSpan, []⟩

/-- Offers the index of a snapshot, and answers the one that is kept and whether it is this one. -/
def offer [DecidableEq κ] (d : OnDemandIndex κ α) (snapshot : List (κ × Option α)) :
    (SharedIndex κ α × Bool) × OnDemandIndex κ α :=
  let (result, built) := d.built.offer ⟨d.nextKey, .ofEntries snapshot⟩
  (result, { d with built, nextKey := d.nextKey + 1 })

/-- Ends a build that has taken its snapshot. -/
def finish [DecidableEq κ] (d : OnDemandIndex κ α) (snapshot : List (κ × Option α)) :
    SharedIndex κ α × OnDemandIndex κ α :=
  let size := (UniqueIndex.ofEntries snapshot).size
  let d := d.emit ⟨.record, buildSpan, [("entries", .number size)]⟩
  let ((held, won), d) := d.offer snapshot
  let d :=
    if won then d
    else d.emit ⟨.event, "index built concurrently, discarding local build", []⟩
  (held, d.leave)

/-- The index, built from this snapshot if it is not built yet. -/
def demand [DecidableEq κ] (d : OnDemandIndex κ α) (snapshot : List (κ × Option α)) :
    SharedIndex κ α × OnDemandIndex κ α :=
  match d.built.stored with
  | some o => (o, d)
  | none => d.enter.finish snapshot

/-- Drops the index, so that the next use builds it again. -/
def drop (d : OnDemandIndex κ α) : Option (SharedIndex κ α) × OnDemandIndex κ α :=
  let (o, built) := d.built.clear
  (o, { d with built })

/-- The text of an index. -/
def describe (d : OnDemandIndex κ α) : String :=
  Text.record "DerivedIndex"
    [("built", Text.optional (d.built.stored.map fun o => toString o.value.size)),
      ("discarded_builds", toString d.built.dropped)]

end OnDemandIndex

/-! ### Builds that nest -/

/-- What is done with an index. Taking a snapshot may do more with the same index, and may fail. -/
inductive IndexStep where
  | demand (snapshot : List (String × Option Int)) (during : List IndexStep) (fails : Bool)
  | get
  | drop
  | describe
  /-- Several threads have taken their snapshots before any of them ends its build. -/
  | race (threads : Nat) (snapshot : List (String × Option Int))

mutual

/-- What a step answers. -/
inductive IndexAnswer where
  /-- The index, unless the snapshot failed, and what was done while it was taken, if it was. -/
  | built (got : Option (SharedIndex String Int)) (during : Option (List IndexEntry))
  | index (o : Option (SharedIndex String Int))
  | dropped (o : Option (SharedIndex String Int))
  | text (s : String)

/-- The answer of a step, and whether the index is built when it ends. -/
inductive IndexEntry where
  | mk (answer : IndexAnswer) (built : Bool)

end

/-- The wording of a snapshot that fails. -/
def snapshotFailure : String := "snapshot failed"

namespace OnDemandIndex

/-- Offers the index of the same snapshot several times. -/
def offerMany (snapshot : List (String × Option Int)) :
    Nat → OnDemandIndex String Int → OnDemandIndex String Int
  | 0, d => d
  | n + 1, d => offerMany snapshot n (d.offer snapshot).2

mutual

/-- Performs a step. -/
def perform (d : OnDemandIndex String Int) : IndexStep → IndexEntry × OnDemandIndex String Int
  | .demand snapshot during fails =>
    match d.built.stored with
    | some o => (.mk (.built (some o) none) true, d)
    | none =>
      let (entries, d) := performEach d.enter during
      if fails then (.mk (.built none (some entries)) d.isBuilt, d.leave)
      else
        let (o, d) := d.finish snapshot
        (.mk (.built (some o) (some entries)) d.isBuilt, d)
  | .get => (.mk (.index d.built.stored) d.isBuilt, d)
  | .drop =>
    let (o, d) := d.drop
    (.mk (.dropped o) d.isBuilt, d)
  | .describe => (.mk (.text d.describe) d.isBuilt, d)
  | .race threads snapshot =>
    let d := if d.isBuilt then d else offerMany snapshot threads d
    (.mk (.index d.built.stored) d.isBuilt, d)

/-- Performs steps in order. -/
def performEach (d : OnDemandIndex String Int) :
    List IndexStep → List IndexEntry × OnDemandIndex String Int
  | [] => ([], d)
  | s :: steps =>
    let (entry, d) := perform d s
    let (entries, d) := performEach d steps
    (entry :: entries, d)

end

end OnDemandIndex
end Emission
end Deferral
