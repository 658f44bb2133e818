import MeterRadio.Message.Record

/-!
# Preambles

Every format starts with a fixed pattern: an IDM with 32 bits, an SCM+ with 16 and an SCM with 21.
The last 16 bits of the IDM pattern are the SCM+ pattern, so an IDM has to be looked for first.
-/

namespace MeterRadio

/-- Whether the first 32 bits of a message are those of its format. -/
def Kind.hasPreamble (kind : Kind) (word : UInt32) : Bool :=
  match kind with
  | .idm | .idm18 => word == idmPreamble
  | .scmPlus => (word >>> 16).toUInt16 == scmPlusSync
  | .scm => (word >>> 8) &&& scmPreambleMask == scmPreamble

/-- The kinds that can be told by their preamble, in the order in which they are looked for. -/
def searchOrder : List Kind :=
  [.idm, .scmPlus, .scm]

end MeterRadio
