/-!
Why an operation fails. System failures are told apart by their cause; the cause decides the code
under which the failure is reported.
-/

namespace ScriptPack

inductive SystemError
  | noEntry | notDirectory | isDirectory | alreadyExists | notEmpty | tooManyLinks | invalid
  | notSupported | badPath
  /-- A folder is to be copied where something else is. -/
  | folderOntoFile
  /-- Something else is to be copied where a folder is. -/
  | fileOntoFolder
  /-- A folder is to be copied, but only a file was asked for. -/
  | unexpectedFolder
  /-- The source of a copy is its own target, or the target lies inside the source. -/
  | copyIntoItself
  /-- A link to a folder is to be replaced by a link into that folder. -/
  | linkIntoFolder
  /-- A folder stands where a settings file is looked for. -/
  | folderAsModule
  deriving DecidableEq, Repr

namespace SystemError

def code : SystemError → String
  | noEntry => "ENOENT"
  | notDirectory => "ENOTDIR"
  | isDirectory => "EISDIR"
  | alreadyExists => "EEXIST"
  | notEmpty => "ENOTEMPTY"
  | tooManyLinks => "ELOOP"
  | invalid => "EINVAL"
  | notSupported => "ENOTSUP"
  | badPath => "ERR_INVALID_ARG_VALUE"
  | folderOntoFile => "ERR_FS_CP_DIR_TO_NON_DIR"
  | fileOntoFolder => "ERR_FS_CP_NON_DIR_TO_DIR"
  | unexpectedFolder => "ERR_FS_EISDIR"
  | copyIntoItself => "ERR_FS_CP_EINVAL"
  | linkIntoFolder => "ERR_FS_CP_SYMLINK_TO_SUBDIRECTORY"
  | folderAsModule => "ERR_UNSUPPORTED_DIR_IMPORT"

def description : SystemError → String
  | noEntry => "no such file or directory"
  | notDirectory => "not a directory"
  | isDirectory => "illegal operation on a directory"
  | alreadyExists => "file already exists"
  | notEmpty => "directory not empty"
  | tooManyLinks => "too many symbolic links encountered"
  | invalid => "invalid argument"
  | notSupported => "operation not supported"
  | badPath => "the path is not valid"
  | folderOntoFile => "cannot overwrite a file with a directory"
  | fileOntoFolder => "cannot overwrite a directory with a file"
  | unexpectedFolder => "the source is a directory"
  | copyIntoItself => "cannot copy something into itself"
  | linkIntoFolder => "cannot replace a link by a link into its target"
  | folderAsModule => "a directory is not a settings file"

def message (error : SystemError) : String := error.code ++ ": " ++ error.description

end SystemError

inductive Failure
  | system (error : SystemError)
  /-- A text that is not JSON. -/
  | badJson
  /-- A moment outside the range of dates. -/
  | badDate
  /-- A value of a kind that the operation cannot use. -/
  | wrongKind
  /-- A failure that an engine or a resolver reports in its own words. -/
  | reported (message : String)
  deriving DecidableEq, Repr

namespace Failure

def message : Failure → String
  | system error => error.message
  | badJson => "not a JSON text"
  | badDate => "Invalid time value"
  | wrongKind => "value of a wrong kind"
  | reported message => message

end Failure

end ScriptPack
