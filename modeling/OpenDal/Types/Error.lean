import Mathlib.Data.List.Basic

/-!
# Errors and polled results

The error value that every operation returns.  The source chain and the
captured backtrace of the original are opaque to all callers and are left out;
the status is what retrying depends on.
-/

namespace OpenDal

/-- All kinds of error. -/
inductive ErrorKind where
  | unexpected
  | unsupported
  | configInvalid
  | notFound
  | permissionDenied
  | isADirectory
  | notADirectory
  | alreadyExists
  | rateLimited
  | isSameFile
  | conditionNotMatch
  | rangeNotSatisfied
deriving DecidableEq, Repr

/-- `persistent` is an error that used to be temporary and still failed after
its retries; it is not temporary any more. -/
inductive ErrorStatus where
  | permanent
  | temporary
  | persistent
deriving DecidableEq, Repr

structure Error where
  kind : ErrorKind
  message : String
  status : ErrorStatus
  operation : String
  context : List (String × String)
deriving DecidableEq, Repr

namespace Error

def new (kind : ErrorKind) (message : String) : Error :=
  { kind
    message
    status := .permanent
    operation := ""
    context := [] }

def withContext (err : Error) (key value : String) : Error :=
  { err with context := err.context ++ [(key, value)] }

def setTemporary (err : Error) : Error :=
  { err with status := .temporary }

def isTemporary (err : Error) : Bool :=
  err.status == .temporary

end Error

def newRequestBuildError : Error :=
  { Error.new .unexpected "building http request" with
    operation := "http::Request::build" }

/-- What a future answers when it is polled. -/
inductive Poll (α : Type) where
  | pending
  | ready (value : α)
deriving DecidableEq, Repr

/-- The kinds of `std::io::Error` that the adapters use. -/
inductive IoErrorKind where
  | notFound
  | permissionDenied
  | interrupted
  | invalidInput
  | other
deriving DecidableEq, Repr

/-- An `std::io::Error` wraps a text or an error of this crate. -/
structure IoError where
  kind : IoErrorKind
  source : String ⊕ Error
deriving DecidableEq, Repr

namespace IoError

/-- `std::io::Error::new(ErrorKind::Other, ..)` of an error. -/
def other (err : Error) : IoError :=
  ⟨.other, .inr err⟩

/-- `format_std_io_error`. -/
def formatStdIoError (err : Error) : IoError :=
  match err.kind with
  | .notFound => ⟨.notFound, .inr err⟩
  | .permissionDenied => ⟨.permissionDenied, .inr err⟩
  | _ => ⟨.interrupted, .inr err⟩

end IoError

/-- The kinds of `std::io::Error` that are told apart; any other one is known
by its text. -/
inductive StdErrorKind where
  | notFound
  | permissionDenied
  | alreadyExists
  | unsupported
  | other (text : String)
deriving DecidableEq

/-- The texts are those of `std::io::ErrorKind`. -/
def newStdIoError : StdErrorKind → Error
  | .notFound => .new .notFound "entity not found"
  | .permissionDenied => .new .permissionDenied "permission denied"
  | .alreadyExists => .new .alreadyExists "entity already exists"
  | .unsupported => .new .unsupported "unsupported"
  | .other text => (Error.new .unexpected text).setTemporary

end OpenDal
