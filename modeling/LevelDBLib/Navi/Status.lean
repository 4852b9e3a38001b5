/-
This file models `Status`, the answer of the operations of the key-value store: success,
or a kind of failure with a message and what the message is about.
-/

import LevelDBLib.KvDB.Value

namespace LevelDBLib.Navi

open KvDB

/-- The bytes of a text of the program. -/
def text (message : String) : Bytes := message.toUTF8.toList

inductive Status where
  | OK
  | NotFound (msg msg2 : Bytes)
  | Corruption (msg msg2 : Bytes)
  | NotSupported (msg msg2 : Bytes)
  | InvalidArgument (msg msg2 : Bytes)
  | IOError (msg msg2 : Bytes)
deriving DecidableEq, Repr

def Status.ok (status : Status) : Bool := status = .OK

end LevelDBLib.Navi
