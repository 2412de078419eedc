import Provision.Host.Error

/-!
# Errors of the control bus

A call on the bus fails with an error that the peer named, with an error of the
bus itself, or with an error of the connection. An error of the bus itself is one
of those it defines, or wraps any other error.

* `Bus.Error`, `Bus.OwnError`, `Bus.Standard`: the errors.
* `Bus.classify`: what an error of a call on a unit means for the host.
* `classify_wrapped`: a wrapped error means what it wraps.
-/

namespace Provision.Bus

/-- The errors that the bus itself defines. -/
inductive Standard where
  | failed
  | noMemory
  | serviceUnknown
  | nameHasNoOwner
  | noReply
  | ioError
  | badAddress
  | notSupported
  | limitsExceeded
  | accessDenied
  | authFailed
  | noServer
  | timeout
  | noNetwork
  | addressInUse
  | disconnected
  | invalidArgs
  | fileNotFound
  | fileExists
  | unknownMethod
  | unknownObject
  | unknownInterface
  | unknownProperty
  | propertyReadOnly
  | timedOut
  | matchRuleNotFound
  | matchRuleInvalid
  | spawnExecFailed
  | spawnForkFailed
  | spawnChildExited
  | spawnChildSignaled
  | spawnFailed
  | spawnFailedToSetup
  | spawnConfigInvalid
  | spawnServiceNotValid
  | spawnServiceNotFound
  | spawnPermissionsInvalid
  | spawnFileInvalid
  | spawnNoMemory
  | unixProcessIdUnknown
  | invalidSignature
  | invalidFileContent
  | selinuxSecurityContextUnknown
  | adtAuditDataUnknown
  | objectPathInUse
  | inconsistentMessage
  | interactiveAuthorizationRequired
  | notContainer
deriving DecidableEq, Inhabited, Repr

namespace Standard

/-- The last part of the name of an error. -/
def label : Standard → String
  | failed => "Failed"
  | noMemory => "NoMemory"
  | serviceUnknown => "ServiceUnknown"
  | nameHasNoOwner => "NameHasNoOwner"
  | noReply => "NoReply"
  | ioError => "IOError"
  | badAddress => "BadAddress"
  | notSupported => "NotSupported"
  | limitsExceeded => "LimitsExceeded"
  | accessDenied => "AccessDenied"
  | authFailed => "AuthFailed"
  | noServer => "NoServer"
  | timeout => "Timeout"
  | noNetwork => "NoNetwork"
  | addressInUse => "AddressInUse"
  | disconnected => "Disconnected"
  | invalidArgs => "InvalidArgs"
  | fileNotFound => "FileNotFound"
  | fileExists => "FileExists"
  | unknownMethod => "UnknownMethod"
  | unknownObject => "UnknownObject"
  | unknownInterface => "UnknownInterface"
  | unknownProperty => "UnknownProperty"
  | propertyReadOnly => "PropertyReadOnly"
  | timedOut => "TimedOut"
  | matchRuleNotFound => "MatchRuleNotFound"
  | matchRuleInvalid => "MatchRuleInvalid"
  | spawnExecFailed => "SpawnExecFailed"
  | spawnForkFailed => "SpawnForkFailed"
  | spawnChildExited => "SpawnChildExited"
  | spawnChildSignaled => "SpawnChildSignaled"
  | spawnFailed => "SpawnFailed"
  | spawnFailedToSetup => "SpawnFailedToSetup"
  | spawnConfigInvalid => "SpawnConfigInvalid"
  | spawnServiceNotValid => "SpawnServiceNotValid"
  | spawnServiceNotFound => "SpawnServiceNotFound"
  | spawnPermissionsInvalid => "SpawnPermissionsInvalid"
  | spawnFileInvalid => "SpawnFileInvalid"
  | spawnNoMemory => "SpawnNoMemory"
  | unixProcessIdUnknown => "UnixProcessIdUnknown"
  | invalidSignature => "InvalidSignature"
  | invalidFileContent => "InvalidFileContent"
  | selinuxSecurityContextUnknown => "SELinuxSecurityContextUnknown"
  | adtAuditDataUnknown => "AdtAuditDataUnknown"
  | objectPathInUse => "ObjectPathInUse"
  | inconsistentMessage => "InconsistentMessage"
  | interactiveAuthorizationRequired => "InteractiveAuthorizationRequired"
  | notContainer => "NotContainer"

/-- Every error. -/
def all : List Standard :=
  [.failed, .noMemory, .serviceUnknown, .nameHasNoOwner, .noReply, .ioError, .badAddress,
    .notSupported, .limitsExceeded, .accessDenied, .authFailed, .noServer, .timeout,
    .noNetwork, .addressInUse, .disconnected, .invalidArgs, .fileNotFound, .fileExists,
    .unknownMethod, .unknownObject, .unknownInterface, .unknownProperty, .propertyReadOnly,
    .timedOut, .matchRuleNotFound, .matchRuleInvalid, .spawnExecFailed, .spawnForkFailed,
    .spawnChildExited, .spawnChildSignaled, .spawnFailed, .spawnFailedToSetup,
    .spawnConfigInvalid, .spawnServiceNotValid, .spawnServiceNotFound,
    .spawnPermissionsInvalid, .spawnFileInvalid, .spawnNoMemory, .unixProcessIdUnknown,
    .invalidSignature, .invalidFileContent, .selinuxSecurityContextUnknown,
    .adtAuditDataUnknown, .objectPathInUse, .inconsistentMessage,
    .interactiveAuthorizationRequired, .notContainer]

/-- What the names of these errors start with. -/
def namespaceOf : String := "org.freedesktop.DBus.Error."

/-- The name of an error. -/
def name (e : Standard) : String := namespaceOf ++ e.label

end Standard

/-- What is wrong with a message or a connection. -/
inductive ProtocolFault where
  | interfaceNotFound
  | invalidField
  | excessData
  | incorrectEndian
  | invalidReply
  | missingField
  | invalidGuid
  | unsupported
  | nameTaken
  | invalidMatchRule
  | invalidSerial
deriving DecidableEq, Inhabited, Repr

/-- The fault in words. -/
def ProtocolFault.message : ProtocolFault → String
  | interfaceNotFound => "Interface not found"
  | invalidField => "invalid message field"
  | excessData => "excess data"
  | incorrectEndian => "incorrect endian"
  | invalidReply => "Invalid D-Bus method reply"
  | missingField => "A required field is missing from message headers"
  | invalidGuid => "Invalid GUID"
  | unsupported => "Connection support is lacking"
  | nameTaken => "name already taken on the bus"
  | invalidMatchRule => "Invalid match rule string"
  | invalidSerial => "Serial number in the message header is 0"

mutual

/-- Why a call on the bus failed. -/
inductive Error where
  /-- An error that the peer named. -/
  | named (name : String) (text : Option String)
  /-- An error of the bus itself. -/
  | own (error : OwnError)
  | io (text : String)
  | address (text : String)
  | handshake (text : String)
  /-- Any other failure, of which only the words are told. -/
  | failure (text : String)
  | protocol (fault : ProtocolFault)

/-- An error of the bus itself. -/
inductive OwnError where
  /-- An error that the bus defines. -/
  | standard (kind : Standard) (text : String)
  /-- An error around another one. -/
  | wrapped (inner : Error)

end

deriving instance DecidableEq, Repr for Error, OwnError

/-- An error that the bus defines, as a call fails with it. -/
@[match_pattern] def Error.standard (kind : Standard) (text : String) : Error :=
  .own (.standard kind text)

/-- An error of the bus around another one. -/
@[match_pattern] def Error.wrapped (inner : Error) : Error := .own (.wrapped inner)

/-- The bus did not carry the call, or its answer, in time. -/
def Standard.isUnreachable : Standard → Bool
  | timeout | timedOut | noReply | serviceUnknown | disconnected | noServer => true
  | _ => false

/-- The names by which a peer says that the bus is unreachable. -/
def unreachableNames : List String :=
  ["org.freedesktop.DBus.Error.Timeout", "org.freedesktop.DBus.Error.TimedOut",
    "org.freedesktop.DBus.Error.NoReply", "org.freedesktop.DBus.Error.ServiceUnknown",
    "org.freedesktop.DBus.Error.Disconnected", "org.freedesktop.DBus.Error.NoServer"]

/-- The name by which the service manager says that it does not know a unit. -/
def noSuchUnitName : String := "org.freedesktop.systemd1.NoSuchUnit"

/-- What an error that the peer named means. -/
def classifyNamed (unit call name text : String) : HostError :=
  if name = noSuchUnitName then .noSuchUnit unit
  else if unreachableNames.contains name then .unreachable (name ++ ": " ++ text)
  else .rejected unit call (if text = "" then name else name ++ ": " ++ text)

mutual

/-- What an error of a call on a unit means. -/
def classify (unit call : String) : Error → HostError
  | .named name text => classifyNamed unit call name (text.getD "")
  | .own e => classifyOwn unit call e
  | .io text | .address text | .handshake text => .unreachable text
  | .failure text => .backend text
  | .protocol fault => .backend fault.message

/-- What an error of the bus itself means. -/
def classifyOwn (unit call : String) : OwnError → HostError
  | .wrapped inner => classify unit call inner
  | .standard kind text =>
    if kind.isUnreachable then .unreachable text
    else .rejected unit call (kind.name ++ ": " ++ text)

end

@[simp] theorem classify_wrapped (unit call : String) (e : Error) :
    classify unit call (.wrapped e) = classify unit call e := by
  rw [Error.wrapped, classify, classifyOwn]

/-- A part of an error name: a letter or an underscore, then these or digits. -/
def isNamePart (s : List Char) : Bool :=
  match s with
  | [] => false
  | c :: _ => !c.isDigit && s.all fun c => c.isAlphanum || c = '_'

/-- The form of an error name: at least two parts with points between them, 255
characters at most. -/
def isErrorName (name : String) : Bool :=
  let parts := name.toList.splitOn '.'
  name.length ≤ 255 && 2 ≤ parts.length && parts.all isNamePart

end Provision.Bus
