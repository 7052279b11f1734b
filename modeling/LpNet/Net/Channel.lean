import LpNet.Net.Address

/-!
The class `Channel`: a descriptor, the events it is registered for, and which of
its callbacks an event runs.
-/

namespace LpNet

/-- A set of `EventType` bits; the source keeps it in an `int`. -/
abbrev EventMask := BitVec 32

def EVENT_NONE : EventMask := 0
def EVENT_IN : EventMask := 1
def EVENT_OUT : EventMask := 4
def EVENT_ERR : EventMask := 8
def EVENT_HUP : EventMask := 16

inductive ChannelCallback
  | read
  | write
  | close
  | error
  deriving DecidableEq, Repr

structure Channel where
  sockfd : Sockfd
  events : EventMask
  deriving DecidableEq, Repr

namespace Channel

def new (fd : Sockfd) : Channel := ⟨fd, EVENT_NONE⟩

def enableReading (ch : Channel) : Channel := { ch with events := ch.events ||| EVENT_IN }

def enableWriting (ch : Channel) : Channel := { ch with events := ch.events ||| EVENT_OUT }

def disableReading (ch : Channel) : Channel := { ch with events := ch.events &&& ~~~EVENT_IN }

def disableWriting (ch : Channel) : Channel := { ch with events := ch.events &&& ~~~EVENT_OUT }

def setEvents (ch : Channel) (events : EventMask) : Channel := { ch with events := events }

def isNoneEvent (ch : Channel) : Bool := ch.events == EVENT_NONE

def isReading (ch : Channel) : Bool := (ch.events &&& EVENT_IN) != 0

def isWriting (ch : Channel) : Bool := (ch.events &&& EVENT_OUT) != 0

/-- `handleEvent(events)`: the callbacks it runs, in order. A hangup hides an error. -/
def handleEvent (events : EventMask) : List ChannelCallback :=
  (if (events &&& EVENT_IN) ≠ 0 then [.read] else []) ++
    (if (events &&& EVENT_OUT) ≠ 0 then [.write] else []) ++
      if (events &&& EVENT_HUP) ≠ 0 then [.close]
      else if (events &&& EVENT_ERR) ≠ 0 then [.error] else []

end Channel

end LpNet
