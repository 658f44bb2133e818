import MeterRadio.Message.Scm
import MeterRadio.Message.ScmPlus
import MeterRadio.Message.Idm

/-!
# Records

A record is the content of one message of any kind. `Record.decode` reads raw bytes as a message of
a given kind and `Record.encode` lays a record out again.

The kind of a record is decided by its content: bytes that are read as an IDM turn out to be `idm`
or `idm18` according to the meter type inside.
-/

namespace MeterRadio

/-- The content of a message. -/
inductive Record
  | scm (m : Scm)
  | scmPlus (m : ScmPlus)
  /-- Content of an IDM in either layout. -/
  | idm (m : Idm)
  deriving DecidableEq, Repr

namespace Record

/-- The kind of a record. -/
def kind : Record → Kind
  | scm _ => .scm
  | scmPlus _ => .scmPlus
  | idm m => m.kind

/-- The kind by whose preamble a record is found: both IDM layouts start in the same way. -/
def sentAs : Record → Kind
  | scm _ => .scm
  | scmPlus _ => .scmPlus
  | idm _ => .idm

/-- Reads raw bytes as a message of the given kind. -/
def decode (kind : Kind) (raw : Bytes) : Except DecodeError Record :=
  match kind with
  | .scm => .scm <$> Scm.decode raw
  | .scmPlus => .scmPlus <$> ScmPlus.decode raw
  | .idm | .idm18 => .idm <$> Idm.decode raw

/-- The raw message of a record, with a fresh checksum. -/
def encode : Record → Except RangeError Bytes
  | scm m => .ok m.encode
  | scmPlus m => .ok m.encode
  | idm m => m.encode

end Record

end MeterRadio
