import BranchBound.Scalar.Double
import BranchBound.Search.Controller

/-!
# Reports

The result of a solve as text for a reader, or as JSON.
-/

namespace BranchBound

structure Report where
  outcome : Outcome
  /-- The best objective value, if it is finite. -/
  objective : Option Float
  point : List Float
  counters : Search.Counters
  elapsedMs : Nat

namespace Report

def ofSolution (s : Search.Solution Float) (elapsedMs : Nat) : Report :=
  { outcome := s.outcome
    objective := s.incumbent.objective.filter Scalar.isFinite
    point := s.incumbent.point
    counters := s.counters
    elapsedMs }

/-! ### Text -/

def text (r : Report) : String :=
  let objective := match r.objective with
    | some v => Decimal.plain v
    | none => Decimal.infinityText false
  let point := ", ".intercalate (r.point.map Decimal.plain)
  let name := r.outcome.name
  let code := r.outcome.code
  let explored := r.counters.explored
  let pruned := r.counters.pruned
  let branched := r.counters.branched
  let depth := r.counters.maxDepth
  let elapsed := r.elapsedMs
  s!"Status:    {name} ({code})\n" ++
    s!"Objective: {objective}\n" ++
    s!"Solution:  [{point}]\n" ++
    s!"Nodes:     {explored} explored, {pruned} pruned, {branched} branched, max depth {depth}\n" ++
    (if r.counters.nodeLimitReached then "Node limit reached\n" else "") ++
    s!"Time:      {elapsed} ms\n"

/-! ### JSON -/

/-- JSON numbers keep their point, have an exponent below `1e-5` and from `1e16` on, and of two
equally near decimals take the even one. -/
def numberLayout : Decimal.Layout :=
  { tie := .even, positional := fun lead => -5 ≤ lead && lead ≤ 15, pointKept := true }

/-- A JSON number, or null if it is not finite. -/
def number (v : Float) : String :=
  if v.isFinite then Decimal.write numberLayout v else "null"

def indentation (width : Nat) : String :=
  String.ofList (List.replicate width ' ')

/-- Items on lines of their own between `opening` and `closing`, which stands `indent` deep. -/
def block (opening closing : String) (indent : Nat) (items : List String) : String :=
  if items.isEmpty then opening ++ closing
  else
    opening ++ "\n" ++ ",\n".intercalate (items.map (indentation (indent + 2) ++ ·)) ++ "\n" ++
      indentation indent ++ closing

def object (indent : Nat) (fields : List (String × String)) : String :=
  block "\x7b" "\x7d" indent (fields.map fun (key, value) => "\"" ++ key ++ "\": " ++ value)

def countersJson (k : Search.Counters) (elapsedMs : Nat) : String :=
  object 2
    [("nodes_explored", toString k.explored),
      ("nodes_pruned", toString k.pruned),
      ("nodes_branched", toString k.branched),
      ("integral_nodes", toString k.integral),
      ("infeasible_nodes", toString k.infeasible),
      ("unbounded_nodes", toString k.unbounded),
      ("limited_nodes", toString k.limited),
      ("incumbent_updates", toString k.updates),
      ("max_depth", toString k.maxDepth),
      ("peak_nodes", toString k.peakNodes),
      ("elapsed_ms", toString elapsedMs),
      ("node_limit_reached", if k.nodeLimitReached then "true" else "false")]

def json (r : Report) : String :=
  object 0
    [("status", "\"" ++ r.outcome.name ++ "\""),
      ("status_code", toString r.outcome.code),
      ("objective", (r.objective.map number).getD "null"),
      ("solution", block "[" "]" 2 (r.point.map number)),
      ("stats", countersJson r.counters r.elapsedMs)]

/-- The report as it is printed, in either form with a line end. -/
def render (r : Report) (asJson : Bool) : String :=
  if asJson then r.json ++ "\n" else r.text

end Report

end BranchBound
