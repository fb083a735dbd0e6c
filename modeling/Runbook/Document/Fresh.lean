import Runbook.Timestamp

/-!
# What a document leaves out

A document may leave out identities and dates.  They are filled in from a supply, which is given to
every reading: identities by the place of what they identify, and one point in time for the dates.
A place is the list of positions on the way from the root, so two steps of a document have two
places.
-/

namespace Runbook

/-- A place in the tree of a sequence: the positions from the root down, and nothing for the
sequence itself. -/
abbrev Place := List Nat

/-- What is put where a document gives nothing. -/
structure Fresh where
  /-- The identity for a place. -/
  id : Place → String
  /-- The point in time. -/
  now : Timestamp

end Runbook
