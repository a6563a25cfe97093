import OpenDal.Raw.Path
import OpenDal.Types.Error

/-!
# Entries

What a listing returns.  Of the metadata only the mode and the version are
read by the operations that follow.
-/

namespace OpenDal

inductive EntryMode where
  | file
  | dir
  | unknown
deriving DecidableEq, Repr

structure Metadata where
  mode : EntryMode
  version : Option String
deriving DecidableEq, Repr

def Metadata.new (mode : EntryMode) : Metadata :=
  { mode
    version := none }

structure Entry where
  path : Path
  metadata : Metadata
deriving DecidableEq, Repr

end OpenDal
