/-!
# Faults of a file system

What a request to the file system can be refused for, and its wording.
-/

namespace Relabel.Disk

/-- Why a request was refused. -/
inductive Fault where
  | notFound
  | busy
  | alreadyThere
  | notFolder
  | isFolder
  | invalid
  | nameTooLong
  | notEmpty
  | tooManyLinks
  /-- The path holds a byte that ends texts. -/
  | nulInPath
  /-- The content is no text. -/
  | notText
  /-- No directory above a path could be made. -/
  | noWholeTree
  deriving DecidableEq, Repr

namespace Fault

/-- The fault in words. -/
def message : Fault → String
  | notFound => "No such file or directory (os error 2)"
  | busy => "Device or resource busy (os error 16)"
  | alreadyThere => "File exists (os error 17)"
  | notFolder => "Not a directory (os error 20)"
  | isFolder => "Is a directory (os error 21)"
  | invalid => "Invalid argument (os error 22)"
  | nameTooLong => "File name too long (os error 36)"
  | notEmpty => "Directory not empty (os error 39)"
  | tooManyLinks => "Too many levels of symbolic links (os error 40)"
  | nulInPath => "file name contained an unexpected NUL byte"
  | notText => "stream did not contain valid UTF-8"
  | noWholeTree => "failed to create whole tree"

end Fault
end Relabel.Disk
