import Mathlib

/-!
# `Vfs.Error` — the errors of the file layer (`vfs::error`)
-/

namespace OxideOs.Vfs

inductive VfsError where
  | notFound
  | permissionDenied
  | alreadyExists
  | notDirectory
  | isDirectory
  | invalidArgument
  | noSpace
  | readOnly
  | tooManyOpenFiles
  | badFd
  | notEmpty
  | crossDevice
  | nameTooLong
  | ioError
  | notSupported
  | busy
  | noDevice
  | brokenPipe
  | wouldBlock
  | interrupted
  | notConnected
  | invalidOperation
  | invalidFilesystem
  | corruptedFilesystem
  deriving DecidableEq, Repr

abbrev VfsResult (α : Type) := Except VfsError α

def VfsError.toErrno : VfsError → Int
  | .notFound => -2
  | .permissionDenied => -13
  | .alreadyExists => -17
  | .notDirectory => -20
  | .isDirectory => -21
  | .invalidArgument => -22
  | .noSpace => -28
  | .readOnly => -30
  | .tooManyOpenFiles => -24
  | .badFd => -9
  | .notEmpty => -39
  | .crossDevice => -18
  | .nameTooLong => -36
  | .ioError => -5
  | .notSupported => -95
  | .busy => -16
  | .noDevice => -19
  | .brokenPipe => -32
  | .wouldBlock => -11
  | .interrupted => -4
  | .notConnected => -107
  | .invalidOperation => -22
  | .invalidFilesystem => -22
  | .corruptedFilesystem => -5

theorem VfsError.toErrno_neg (e : VfsError) : e.toErrno < 0 := by
  cases e <;> decide

end OxideOs.Vfs
