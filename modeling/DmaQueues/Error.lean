/-!
# Errors

`AccessError` is refused or failed register access, `ResourceError` a refusal
of the queue allocator, and `QueueError` wraps both for the queue lifecycle and
adds its own three. Each has its text in `message` and all its values in `all`.
-/

namespace DmaQueues

inductive AccessError where
  | invalidParameter
  | busyTimeout
  | invalidConfigBar
  | unsupportedSelector
  | unsupportedVersion
  | featureNotSupported
  deriving DecidableEq, Repr

namespace AccessError

def all : List AccessError :=
  [invalidParameter, busyTimeout, invalidConfigBar, unsupportedSelector, unsupportedVersion,
    featureNotSupported]

def message : AccessError → String
  | invalidParameter => "Invalid parameter"
  | busyTimeout => "Indirect context command timed out"
  | invalidConfigBar => "Configuration BAR identifier mismatch"
  | unsupportedSelector => "Context selector not supported by hardware"
  | unsupportedVersion => "Unsupported hardware version"
  | featureNotSupported => "Feature not supported by hardware"

end AccessError

inductive ResourceError where
  | alreadyExists
  | notFound
  | notEmpty
  | outOfMemory
  | noQueuesLeft
  | qmaxChangeRejected
  | invalidParameter
  deriving DecidableEq, Repr

namespace ResourceError

def all : List ResourceError :=
  [alreadyExists, notFound, notEmpty, outOfMemory, noQueuesLeft, qmaxChangeRejected,
    invalidParameter]

def message : ResourceError → String
  | alreadyExists => "Resource already exists"
  | notFound => "Resource not found"
  | notEmpty => "Group still has functions"
  | outOfMemory => "Out of memory"
  | noQueuesLeft => "No queues left"
  | qmaxChangeRejected => "Queues active, qmax change rejected"
  | invalidParameter => "Invalid parameter"

end ResourceError

inductive QueueError where
  | access (e : AccessError)
  | resource (e : ResourceError)
  | notInRange
  | notStarted
  | alreadyStarted
  deriving DecidableEq, Repr

namespace QueueError

def all : List QueueError :=
  AccessError.all.map access ++ ResourceError.all.map resource ++
    [notInRange, notStarted, alreadyStarted]

def message : QueueError → String
  | access e => "Register access: " ++ e.message
  | resource e => "Queue allocation: " ++ e.message
  | notInRange => "Queue not in function range"
  | notStarted => "Queue not started"
  | alreadyStarted => "Queue already started"

end QueueError

end DmaQueues
