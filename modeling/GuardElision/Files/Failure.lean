/-!
# File failures

Why a file could not be opened or read, and the words in which that is reported. A file that was
opened may still fail, behind some bytes that can be read.
-/

namespace GuardElision

/-- Why an operation on a file failed. -/
inductive FileFailure where
  /-- Nothing has that name. -/
  | notFound
  /-- The path leads through something that is no directory. -/
  | notDirectory
  /-- The path names a directory where a file is wanted. -/
  | isDirectory
  /-- A name on the path, or the whole path, is too long. -/
  | nameTooLong
  /-- The path contains the zero character. -/
  | zeroInPath
  /-- The content is not text. -/
  | notText
  /-- The end was reported where more was to come. -/
  | unexpectedEnd
  /-- Anything else, as it was reported. -/
  | other (report : String)
  deriving DecidableEq, Repr

/-- The report of a failure. -/
def FileFailure.message : FileFailure → String
  | .notFound => "No such file or directory (os error 2)"
  | .notDirectory => "Not a directory (os error 20)"
  | .isDirectory => "Is a directory (os error 21)"
  | .nameTooLong => "File name too long (os error 36)"
  | .zeroInPath => "file name contained an unexpected NUL byte"
  | .notText => "stream did not contain valid UTF-8"
  | .unexpectedEnd => "unexpected end of file"
  | .other report => report

/-- What is read from an open file: some bytes, behind which the file ends or reading on fails. -/
structure ByteStream where
  bytes : List UInt8
  fault : Option FileFailure := none
  deriving DecidableEq, Repr

end GuardElision
