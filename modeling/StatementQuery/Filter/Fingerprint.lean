import StatementQuery.Ground.Basic

/-
  Fingerprints: what a filter asks of one component of a
  statement.

  The normal form of a fingerprint is full, empty, one leaf,
  or a list of at least two different leaves.

  Key definitions include:
    * `Fingerprint`
    * `Fingerprint.normalize`
    * `Fingerprint.alternatives`
-/

------------------------------------------------------------
-- Fingerprints
------------------------------------------------------------

namespace StatementQuery

/- A constraint on one component of a statement. -/
inductive Fingerprint where
| full
| empty
| value (g : Ground)
| snaks (snaks : List Ground)
| or (alternatives : List Fingerprint)

namespace Fingerprint

/- Whether a fingerprint admits anything as it stands. -/
def isFull : Fingerprint → Bool
| .full => true
| _ => false

/- Whether a fingerprint admits nothing as it stands. -/
def isEmpty : Fingerprint → Bool
| .empty => true
| _ => false

/- Equality of lists of ground terms. -/
def sameSnaks : List Ground → List Ground → Bool
| [], [] => true
| g :: gs, h :: hs => g.same h && sameSnaks gs hs
| _, _ => false

mutual

/- Equality of fingerprints, decimals taken as numbers. -/
def same : Fingerprint → Fingerprint → Bool
| .full, .full => true
| .empty, .empty => true
| .value g, .value h => g.same h
| .snaks gs, .snaks hs => sameSnaks gs hs
| .or fps, .or gps => sameAll fps gps
| _, _ => false

/- Equality of lists of fingerprints. -/
def sameAll : List Fingerprint → List Fingerprint → Bool
| [], [] => true
| fp :: fps, gp :: gps => fp.same gp && sameAll fps gps
| _, _ => false

end

end Fingerprint

end StatementQuery

------------------------------------------------------------
-- Normal Forms
------------------------------------------------------------

namespace StatementQuery

namespace Fingerprint

/- What a normal fingerprint adds to a list of leaves. -/
def inner : Fingerprint → List Fingerprint
| .empty => []
| .or alternatives => alternatives
| fp => [fp]

/- Add a leaf, unless an equal one is there. -/
def addLeaf
    (leaves : List Fingerprint)
    (fp : Fingerprint) :
    List Fingerprint :=
  if leaves.any (same fp) then leaves else leaves ++ [fp]

/- The fingerprint of a list of leaves. -/
def ofLeaves : List Fingerprint → Fingerprint
| [] => .empty
| [fp] => fp
| fps => .or fps

/- The normal form of a list of normal alternatives. -/
def combine (fps : List Fingerprint) : Fingerprint :=
  if fps.any isFull then .full
  else ofLeaves ((fps.flatMap inner).foldl addLeaf [])

mutual

/- The normal form of a fingerprint. -/
def normalize : Fingerprint → Fingerprint
| .snaks [] => .full
| .or alternatives => combine (normalizeAll alternatives)
| fp => fp

/- The normal forms of fingerprints. -/
def normalizeAll : List Fingerprint → List Fingerprint
| [] => []
| fp :: fps => fp.normalize :: normalizeAll fps

end

end Fingerprint

end StatementQuery

------------------------------------------------------------
-- Leaves And Alternatives
------------------------------------------------------------

namespace StatementQuery

/- One way to satisfy a fingerprint. -/
inductive Alternative where
| any
| value (g : Ground)
| snaks (snaks : List Ground)

namespace Fingerprint

mutual

/- The leaves of a fingerprint. -/
def leaves : Fingerprint → List Fingerprint
| .or alternatives => leavesAll alternatives
| fp => [fp]

/- The leaves of fingerprints. -/
def leavesAll : List Fingerprint → List Fingerprint
| [] => []
| fp :: fps => fp.leaves ++ leavesAll fps

end

mutual

/- The ways to satisfy a fingerprint. -/
def alternatives : Fingerprint → List Alternative
| .full => [.any]
| .empty => []
| .value g => [.value g]
| .snaks [] => [.any]
| .snaks gs => [.snaks gs]
| .or fps => alternativesAll fps

/- The ways to satisfy one of several fingerprints. -/
def alternativesAll : List Fingerprint → List Alternative
| [] => []
| fp :: fps => fp.alternatives ++ alternativesAll fps

end

mutual

/- Put the empty fingerprint in place of other values. -/
def retain (keep : Ground → Bool) : Fingerprint → Fingerprint
| .value g => if keep g then .value g else .empty
| .or fps => .or (retainAll keep fps)
| fp => fp

/- Put the empty fingerprint in place of other values. -/
def retainAll
    (keep : Ground → Bool) :
    List Fingerprint → List Fingerprint
| [] => []
| fp :: fps => fp.retain keep :: retainAll keep fps

end

end Fingerprint

end StatementQuery
