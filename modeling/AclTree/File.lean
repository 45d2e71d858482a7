/-
Files by path, as far as the program reads them: a path is a file with a text,
or there is a reason why it cannot be read.
-/

namespace AclTree

/-- Why a file could not be read. -/
inductive FileError where
  | notFound
  | isDirectory
  | notDirectory
  | nameTooLong
  | other (reason : String)
  deriving DecidableEq

namespace FileError

def message : FileError → String
  | notFound => "No such file or directory (os error 2)"
  | isDirectory => "Is a directory (os error 21)"
  | notDirectory => "Not a directory (os error 20)"
  | nameTooLong => "File name too long (os error 36)"
  | other reason => reason

end FileError
end AclTree
