import ElmReach.Path.Basic
import ElmReach.Value

/-!
# Failures

An `Error` is a cause that the program reports in its own words: a message, details as name and
value, and a one-line text of both. A `Fault` is a condition of the machine that no report of the
program's own covers. Operations stop with a `Failure`, which is one of the two.
-/

namespace ElmReach

/-- The family of an error that is reported with words of the caller. -/
inductive ErrorFamily where
  | general
  | configuration
  | analysis
  deriving DecidableEq, Repr

/-- A cause that the program reports. -/
inductive Error where
  /-- A cause in words of the caller. -/
  | reported (family : ErrorFamily) (message : String) (details : Assoc Value)
  /-- A setting or configuration field has a value that it cannot have. -/
  | invalidField (key : String) (value : Value) (reason : String)
  /-- A path cannot be resolved. -/
  | invalidPath (path : String) (reason : String)
  /-- A file cannot be read. -/
  | unreadableFile (path : String) (reason : String)
  /-- A source file does not exist. -/
  | missingSource (path : String)
  /-- The project is neither an application nor a package. -/
  | unknownKind (kind : Option String)
  /-- No source directory lies inside the project root. -/
  | noSourceDirs (root : String)
  /-- The entry file of an application cannot be read. -/
  | unreadableEntry (path : String) (reason : String)
  /-- No source file declares these exposed modules. -/
  | exposedWithoutSource (names : List String)
  /-- A settings file that was asked for does not exist. -/
  | missingSettings (path : String)
  /-- A settings file cannot be read. -/
  | unreadableSettings (path : String) (reason : String)
  /-- A settings layer has a name that no setting has. -/
  | unexpectedSetting (name : String)
  deriving Repr

namespace Error

/-- The name under which an error is reported. -/
def label : Error → String
  | .reported .general .. => "ElmSweepError"
  | .reported .configuration .. => "ConfigurationError"
  | .reported .analysis .. => "AnalysisError"
  | .invalidField .. => "InvalidConfigError"
  | .invalidPath .. => "InvalidPathError"
  | .unreadableFile .. => "FileAccessError"
  | .missingSource .. => "SourceFileNotFoundError"
  | .unknownKind .. => "ConfigurationError"
  | .noSourceDirs .. => "ConfigurationError"
  | .unreadableEntry .. => "ConfigurationError"
  | .exposedWithoutSource .. => "ConfigurationError"
  | .missingSettings .. => "ConfigurationError"
  | .unreadableSettings .. => "ConfigurationError"
  | .unexpectedSetting .. => "ConfigurationError"

/-- What the settings constructor says of a name that no setting has. One such name is taken by the
constructor itself. -/
def unexpectedName (name : String) : String :=
  "SweepSettings.__init__() got " ++
    (if name = "self" then "multiple values for argument '" else "an unexpected keyword argument '")
    ++ name ++ "'"

/-- What happened, in one sentence. -/
def message : Error → String
  | .reported _ message _ => message
  | .invalidField key value _ => "Invalid configuration for " ++ key ++ ": " ++ value.plain
  | .invalidPath path _ => "Invalid path: " ++ path
  | .unreadableFile path _ => "Cannot access file: " ++ path
  | .missingSource path => "Source file does not exist: " ++ path
  | .unknownKind _ => "Could not determine the project kind"
  | .noSourceDirs _ => "No source directories inside the project root"
  | .unreadableEntry path _ => "Cannot read entry file: " ++ path
  | .exposedWithoutSource _ => "Exposed modules have no source file"
  | .missingSettings path => "Config file not found: " ++ path
  | .unreadableSettings path reason => "Invalid config file '" ++ path ++ "': " ++ reason
  | .unexpectedSetting name => "Invalid configuration: " ++ unexpectedName name

/-- The details of an error, in order. -/
def details : Error → Assoc String
  | .reported _ _ details => details.map fun (name, value) => (name, value.plain)
  | .invalidField key value reason =>
    [("key", key), ("value", value.plain), ("reason", reason)]
  | .invalidPath path reason => [("path", path), ("reason", reason)]
  | .unreadableFile path reason => [("filepath", path), ("reason", reason)]
  | .missingSource path => [("path", path)]
  | .unknownKind kind => [("kind", kind.getD "None")]
  | .noSourceDirs root => [("root", root)]
  | .unreadableEntry _ reason => [("reason", reason)]
  | .exposedWithoutSource names => [("modules", ", ".intercalate names)]
  | .missingSettings _ => []
  | .unreadableSettings .. => []
  | .unexpectedSetting _ => []

/-- The message, followed by the details in parentheses if there are any. -/
def render (error : Error) : String :=
  if error.details.isEmpty then error.message
  else
    let details := error.details.map fun (name, value) => name ++ "=" ++ value
    error.message ++ " (" ++ ", ".intercalate details ++ ")"

end Error

/-- Why the file system refuses an operation. The process may read and write every file, so that
refusals for want of rights are left out, and so are failures of the device. -/
inductive FileError where
  | notFound
  | notDirectory
  | isDirectory
  | nameTooLong
  | tooManyLinks
  /-- The path holds the character of code zero, which no path can have. -/
  | nullByte
  deriving DecidableEq, Repr

namespace FileError

/-- The number of the reason; a path that cannot be asked for has none. -/
def code : FileError → Nat
  | .notFound => 2
  | .notDirectory => 20
  | .isDirectory => 21
  | .nameTooLong => 36
  | .tooManyLinks => 40
  | .nullByte => 0

/-- The reason in words. -/
def reason : FileError → String
  | .notFound => "No such file or directory"
  | .notDirectory => "Not a directory"
  | .isDirectory => "Is a directory"
  | .nameTooLong => "File name too long"
  | .tooManyLinks => "Too many levels of symbolic links"
  | .nullByte => "embedded null byte"

/-- The reason with its number and the path that was refused. -/
def render (error : FileError) (path : String) : String :=
  match error with
  | .nullByte => error.reason
  | _ => "[Errno " ++ toString error.code ++ "] " ++ error.reason ++ ": " ++ Text.quoted path

end FileError

/-- Bytes that an encoding does not allow. -/
structure DecodeFault where
  /-- Name of the encoding. -/
  codec : String
  /-- Position of the first byte. -/
  start : Nat
  /-- The bytes, at least one. -/
  bytes : List UInt8
  reason : String
  deriving DecidableEq, Repr

namespace DecodeFault

/-- Which bytes are wrong and why. -/
def render (fault : DecodeFault) : String :=
  let place :=
    match fault.bytes with
    | [byte] =>
      "byte 0x" ++ String.ofList (Text.hex 2 byte.toNat) ++ " in position " ++ toString fault.start
    | bytes =>
      "bytes in position " ++ toString fault.start ++ "-" ++
        toString (fault.start + bytes.length - 1)
  "'" ++ fault.codec ++ "' codec can't decode " ++ place ++ ": " ++ fault.reason

end DecodeFault

/-- A condition that no report of the program's own covers. -/
inductive Fault where
  /-- A module name was to be derived from a path without a name. -/
  | emptyName
  /-- An anchored path was compared with one that is not. -/
  | mixedPaths
  /-- A setting was given a name that no setting has. -/
  | unexpectedField (name : String)
  /-- An override has the name of the settings file that is asked for. -/
  | repeatedConfigFile
  /-- No home directory is known. -/
  | noHome
  /-- The working directory has been removed. -/
  | noWorkingDirectory
  /-- The name of an encoding holds the character of code zero. -/
  | nullCharacter
  /-- An integer is written with more digits than are read. -/
  | longNumeral (digits : Nat)
  /-- An integer has more digits than are written. -/
  | longInteger
  /-- Values, directories or links are nested deeper than calls can be. -/
  | tooDeep
  /-- A closing tag closes nothing. -/
  | strayTag (tag : String)
  /-- Links lead in a circle. -/
  | linkLoop (path : String)
  /-- The file system refused an operation. -/
  | file (error : FileError) (path : String)
  /-- A file does not follow its encoding. -/
  | undecodable (fault : DecodeFault)
  /-- A file in UTF-16 has no byte-order mark. -/
  | missingByteOrderMark
  /-- An encoding fails in a way of its own, for which it has a kind and a message. -/
  | codec (kind message : String)
  deriving DecidableEq, Repr

namespace Fault

/-- What is said of an integer with too many digits. -/
def longDigits : String :=
  "Exceeds the limit (" ++ toString Value.maxIntDigits ++ " digits) for integer string conversion"

/-- How the limit of digits can be raised. -/
def raiseLimit : String :=
  "use sys.set_int_max_str_digits() to increase the limit"

/-- What happened. -/
def message : Fault → String
  | .emptyName => "PosixPath('.') has an empty name"
  | .mixedPaths => "Can't mix absolute and relative paths"
  | .unexpectedField name => Error.unexpectedName name
  | .repeatedConfigFile => "load_settings() got multiple values for argument 'config_file'"
  | .noHome => "Could not determine home directory."
  | .noWorkingDirectory => "[Errno 2] No such file or directory"
  | .nullCharacter => "embedded null character"
  | .longNumeral digits =>
    longDigits ++ ": value has " ++ toString digits ++ " digits; " ++ raiseLimit
  | .longInteger => longDigits ++ "; " ++ raiseLimit
  | .tooDeep => "maximum recursion depth exceeded"
  | .strayTag tag => "closing tag '" ++ tag ++ "' doesn't match any open tag"
  | .linkLoop path => "Symlink loop from " ++ Text.quoted path
  | .file error path => error.render path
  | .undecodable fault => fault.render
  | .missingByteOrderMark => "UTF-16 stream does not start with BOM"
  | .codec _ message => message

end Fault

/-- Why an operation stopped. -/
inductive Failure where
  | error (error : Error)
  | fault (fault : Fault)
  deriving Repr

end ElmReach
