/-
  ModuleScan/Path/Order.lean
  ==========================
  **The order of paths.**

  Paths are compared component by component: the root sorts before a leading
  dot, that before the parent, and the parent before names, which sort by their
  bytes.  A path sorts before its extensions.
-/
import ModuleScan.Path.Basic

namespace ModuleScan

def Component.rank : Component → Nat
  | .root => 0
  | .here => 1
  | .parent => 2
  | .name _ => 3

def Component.bytes : Component → List UInt8
  | .name entry => entry.bytes
  | _ => []

/-- Compares by kind, then by bytes. -/
def Component.order (a b : Component) : Ordering :=
  (compare a.rank b.rank).then (compareOfLessAndEq a.bytes b.bytes)

def orderComponents : List Component → List Component → Ordering
  | [], [] => .eq
  | [], _ :: _ => .lt
  | _ :: _, [] => .gt
  | a :: as, b :: bs => (a.order b).then (orderComponents as bs)

namespace Path

/-- Whether a path sorts before another or has the same components. -/
def le (p q : Path) : Bool := (orderComponents p.components q.components).isLE

/-- Drops the paths at the front that are the same as `p`, and then each path
    that is the same as the one kept before it. -/
def dropRepeatedAfter (p : Path) : List Path → List Path
  | [] => []
  | q :: rest => if p.same q then dropRepeatedAfter p rest else q :: dropRepeatedAfter q rest

def dropRepeated : List Path → List Path
  | [] => []
  | p :: rest => p :: dropRepeatedAfter p rest

/-- The paths in order.  Of paths that are the same the first is kept. -/
def sorted (paths : List Path) : List Path := dropRepeated (paths.mergeSort le)

end Path

end ModuleScan
