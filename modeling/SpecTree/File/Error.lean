/-!
# File errors

Why a file or a directory could not be listed, read or written.
-/

namespace SpecTree

/-- A failed access to a file or a directory. -/
inductive FileError where
  | notFound
  | notADirectory
  | isADirectory
  /-- A path, or a name in it, has too many bytes. -/
  | nameTooLong
  /-- A path holds the character that ends it for the system. -/
  | nullCharacter
  /-- The bytes of the file are no UTF-8 text. -/
  | notText
  /-- A collection of sources holds no file at or below the path. -/
  | noSources (root : String)
  /-- A collection of sources has no file of this path. -/
  | noSource (path : String)
  /-- Any other failure, in the words of the system. -/
  | system (message : String)
deriving DecidableEq

/-- The error in words. -/
def FileError.message : FileError → String
  | notFound => "No such file or directory (os error 2)"
  | notADirectory => "Not a directory (os error 20)"
  | isADirectory => "Is a directory (os error 21)"
  | nameTooLong => "File name too long (os error 36)"
  | nullCharacter => "file name contained an unexpected NUL byte"
  | notText => "stream did not contain valid UTF-8"
  | noSources root => "no sources under " ++ root
  | noSource path => "file not found in memory: " ++ path
  | system message => message

end SpecTree
