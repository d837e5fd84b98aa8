import ComponentHost.Time.Rfc3339
import ComponentHost.Wire.Record

/-!
Events, and the topics the host itself publishes.
-/

set_option autoImplicit false

namespace ComponentHost

/-- Something that happened, published under a topic. -/
structure Event where
  topic : String
  payload : Json
  timestamp : Timestamp

namespace Event

def shape : RecordShape Event where
  name := "ZiCEvent"
  fields :=
    .cons { name := "topic", codec := .text } <|
    .cons { name := "payload", codec := .json } <|
    .cons { name := "timestamp", codec := Timestamp.codec } .nil
  toTuple e := (e.topic, e.payload, e.timestamp, ())
  ofTuple t := ⟨t.1, t.2.1, t.2.2.1⟩

def codec : Codec Event := shape.codec

end Event

namespace Topic

/-- A subscription to this topic receives every event. -/
def all : String := "*"

def processInitialized : String := "process.initialized"

def processStarted : String := "process.started"

def processStopped : String := "process.stopped"

def processFailed : String := "process.failed"

def processRemoved : String := "process.removed"

end Topic

end ComponentHost
