import SymbolAtlas.Text.Path

/-!
# Failures

What can go wrong for a caller. Problems inside a file are no failures; they are reported as issues
among its findings.
-/

namespace SymbolAtlas

/-- Why a file could not be read or written. -/
inductive FileFault where
  | notFound
  | isDirectory
  | notDirectory
  | alreadyExists
  | invalidText
  deriving DecidableEq, Repr

/-- The wording of a fault. -/
def FileFault.message : FileFault → String
  | .notFound => "No such file or directory (os error 2)"
  | .isDirectory => "Is a directory (os error 21)"
  | .notDirectory => "Not a directory (os error 20)"
  | .alreadyExists => "File exists (os error 17)"
  | .invalidText => "stream did not contain valid UTF-8"

/-- Why a request failed. -/
inductive Failure where
  | unsupportedLanguage (path : Path)
  | noParser (path : Path) (reason : String)
  | noTree (path : Path)
  | fileTooLarge (path : Path) (size limit : Nat)
  | invalidSettings (reason : String)
  | malformedSettings
  | malformedSnapshot
  | unreadable (fault : FileFault)
  deriving DecidableEq, Repr

/-- The wording of a failure. -/
def Failure.message : Failure → String
  | .unsupportedLanguage path => "unsupported language for " ++ path.text
  | .noParser path reason => "failed to initialize parser for " ++ path.text ++ ": " ++ reason
  | .noTree path => "tree-sitter produced no tree for " ++ path.text
  | .fileTooLarge path size limit =>
    path.text ++ " is " ++ Nat.repr size ++ " bytes, above the " ++ Nat.repr limit ++ " byte limit"
  | .invalidSettings reason => "invalid configuration: " ++ reason
  | .malformedSettings => "config parse error"
  | .malformedSnapshot => "snapshot error"
  | .unreadable fault => "IO error: " ++ fault.message

end SymbolAtlas
