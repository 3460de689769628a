import Transclusion.Text

/-! Why an operation on files fails, and the wording of each cause. -/
namespace Transclusion

inductive FileError where
  | notFound
  | alreadyExists
  | notADirectory
  | isADirectory
  | nameTooLong
  | tooManyLinks
  | notText
  | nulInName
  | other (message : Text)
deriving DecidableEq, Repr

namespace FileError

def message : FileError → Text
  | notFound => "No such file or directory (os error 2)".toList
  | alreadyExists => "File exists (os error 17)".toList
  | notADirectory => "Not a directory (os error 20)".toList
  | isADirectory => "Is a directory (os error 21)".toList
  | nameTooLong => "File name too long (os error 36)".toList
  | tooManyLinks => "Too many levels of symbolic links (os error 40)".toList
  | notText => "stream did not contain valid UTF-8".toList
  | nulInName => "file name contained an unexpected NUL byte".toList
  | other message => message

end FileError
end Transclusion
