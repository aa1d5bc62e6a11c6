/-!
# Failures

A device reports an `IoError`: a kind that callers branch on and a message for people.
A channel reports a `ChannelError`, which names the cause. Each cause has one wording
and one device-level equivalent for callers that know only `IoError`.
-/

namespace ByteChannel

inductive ErrorKind
  | notFound | permissionDenied | connectionRefused | connectionReset | hostUnreachable
  | networkUnreachable | connectionAborted | notConnected | addrInUse | addrNotAvailable
  | networkDown | brokenPipe | alreadyExists | wouldBlock | notADirectory | isADirectory
  | directoryNotEmpty | readOnlyFilesystem | staleNetworkFileHandle | invalidInput | invalidData
  | timedOut | writeZero | storageFull | notSeekable | quotaExceeded | fileTooLarge
  | resourceBusy | executableFileBusy | deadlock | crossesDevices | tooManyLinks
  | invalidFilename | argumentListTooLong | interrupted | unsupported | unexpectedEof
  | outOfMemory | other | uncategorized
  deriving DecidableEq, Repr

structure IoError where
  kind : ErrorKind
  message : String
  deriving DecidableEq, Repr

namespace IoError

def notFound : IoError := ⟨.notFound, "No such file or directory (os error 2)"⟩

def inputOutput : IoError := ⟨.uncategorized, "Input/output error (os error 5)"⟩

def badDescriptor : IoError := ⟨.uncategorized, "Bad file descriptor (os error 9)"⟩

def noMemory : IoError := ⟨.outOfMemory, "Cannot allocate memory (os error 12)"⟩

def permissionDenied : IoError := ⟨.permissionDenied, "Permission denied (os error 13)"⟩

def fileExists : IoError := ⟨.alreadyExists, "File exists (os error 17)"⟩

def noSuchDevice : IoError := ⟨.uncategorized, "No such device (os error 19)"⟩

def notADirectory : IoError := ⟨.notADirectory, "Not a directory (os error 20)"⟩

def isADirectory : IoError := ⟨.isADirectory, "Is a directory (os error 21)"⟩

def invalidArgument : IoError := ⟨.invalidInput, "Invalid argument (os error 22)"⟩

def nulInPath : IoError := ⟨.invalidInput, "file name contained an unexpected NUL byte"⟩

def noAccessRequested : IoError :=
  ⟨.invalidInput, "must specify at least one of read, write, or append access"⟩

def creationNeedsOutput : IoError :=
  ⟨.invalidInput, "creating or truncating a file requires write or append access"⟩

def seekOutOfRange : IoError :=
  ⟨.invalidInput, "invalid seek to a negative or overflowing position"⟩

def fileTooLarge : IoError := ⟨.fileTooLarge, "File too large (os error 27)"⟩

def nameTooLong : IoError := ⟨.invalidFilename, "File name too long (os error 36)"⟩

/-- A device that takes nothing of a non-empty write stops the transfer. -/
def nothingAccepted : IoError := ⟨.writeZero, "backend accepted no bytes"⟩

def outputRefused : IoError := ⟨.writeZero, "channel refused output"⟩

def endOfMapping : IoError := ⟨.writeZero, "end of mapping"⟩

def endOfMemory : IoError := ⟨.writeZero, "end of memory sequence"⟩

end IoError

/-- The failure of a result, if it is one. -/
def failure? {ε α : Type} : Except ε α → Option ε
  | .error e => some e
  | .ok _ => none

inductive ChannelError
  | io (cause : IoError)
  | alreadyOpen
  | notOpen
  | invalidMode (reason : String)
  | outOfBounds (offset len total : Nat)
  | unmapped
  | flushFailed (reason : String)
  | invalidPath (reason : String)
  deriving DecidableEq, Repr

namespace ChannelError

def message : ChannelError → String
  | io cause => "I/O error: " ++ cause.message
  | alreadyOpen => "channel is already open"
  | notOpen => "channel is not open"
  | invalidMode reason => "invalid access mode: " ++ reason
  | outOfBounds offset len total =>
    "range out of bounds: offset=" ++ toString offset ++ ", len=" ++ toString len ++
      ", total=" ++ toString total
  | unmapped => "view of an unopened mapping"
  | flushFailed reason => "flush failed: " ++ reason
  | invalidPath reason => "invalid path: " ++ reason

/-- A device failure passes through unchanged; any other cause keeps its wording. -/
def toIoError : ChannelError → IoError
  | io cause => cause
  | notOpen => ⟨.notConnected, message notOpen⟩
  | outOfBounds offset len total => ⟨.invalidInput, message (outOfBounds offset len total)⟩
  | invalidPath reason => ⟨.invalidInput, message (invalidPath reason)⟩
  | e => ⟨.other, e.message⟩

def bufferHoldsInput : ChannelError := invalidMode "buffer replaced while input is pending"

def noDirectionToSeek : ChannelError := invalidMode "no matching direction to seek"

def noDirectionRequested : ChannelError := invalidMode "neither input nor output requested"

def mappingIsReadOnly : ChannelError := invalidMode "output requested on a read-only mapping"

def notOpenForOutput : ChannelError := invalidMode "channel is not open for output"

def windowIsReadOnly : ChannelError := invalidMode "window is read-only"

end ChannelError

end ByteChannel
