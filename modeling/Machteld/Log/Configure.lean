import Machteld.Except
import Machteld.Units.Parse

namespace Machteld

/-- `LOG_LEVEL`, `LOG_CHAN`, `LOG_FILE`, `LOG_OWNED` and `LOG_DROPPED` -/
structure LogState where
  level : Bytes
  chan : Bytes
  file : Bytes
  owned : Bool
  dropped : Nat

/-- The variables as the prelude sets them. -/
def LogState.start : LogState := ⟨ascii "info", [], [], false, 0⟩

def logLevels : List Bytes := ["debug", "info", "warn", "error"].map ascii

/-- `LogChan` -/
def logChan (s : LogState) : Bytes := if s.chan ≠ [] then s.chan else ascii "stderr"

/-- The logger, the channels that are open, and the channels that it has
opened and has called `close` for so far. -/
structure LogWorld where
  log : LogState
  channels : List Bytes
  opened : List Bytes
  closed : List Bytes

/-- What `open` answers to a path, and whether `fconfigure` takes a channel.
-/
structure LogHost where
  opens : Bytes → Option Bytes
  configures : Bytes → Bool

inductive LogSink
  | current
  | channel (name : Bytes)
  | file (path : Bytes)
deriving DecidableEq

def logError (code : String) (message : Bytes) : TclError := tclFail "LOG" code message

/-- `foreach {o v}`: a value that is missing is empty. -/
def logPairs : List Bytes → List (Bytes × Bytes)
  | [] => []
  | [o] => [(o, [])]
  | o :: v :: rest => (o, v) :: logPairs rest

/-- The loop over the options: the level and the sink of the request. -/
def logOptions (channels : List Bytes) : List (Bytes × Bytes) → Bytes → LogSink → Except TclError (Bytes × LogSink)
  | [], level, sink => .ok (level, sink)
  | (o, v) :: rest, level, sink =>
    if o = ascii "-level" then
      if (logLevels ++ [ascii "off"]).contains v then logOptions channels rest v sink
      else .error (logError "badvalue"
        (ascii "log: unknown level " ++ (quoted v ++ ascii ": must be debug, info, warn, error, off")))
    else if o = ascii "-channel" then
      if channels.contains v then logOptions channels rest level (.channel v)
      else .error (logError "badvalue" (ascii "log: " ++ (quoted v ++ ascii " is not an open channel")))
    else if o = ascii "-file" then logOptions channels rest level (.file v)
    else .error (logError "usage"
      (ascii "log configure: unknown option " ++ (quoted o ++ ascii ": must be -level, -channel, -file")))

/-- `catch {close $ch}` -/
def LogWorld.close (w : LogWorld) (ch : Bytes) : LogWorld :=
  { w with channels := w.channels.filter fun c => c != ch, closed := w.closed ++ [ch] }

/-- The close of the sink that is replaced. -/
def LogWorld.release (w : LogWorld) : LogWorld := if w.log.owned then w.close w.log.chan else w

def LogWorld.opening (w : LogWorld) (ch : Bytes) : LogWorld :=
  { w with channels := w.channels ++ [ch], opened := w.opened ++ [ch] }

def logSettings (s : LogState) : List (Bytes × Bytes) :=
  [(ascii "level", s.level), (ascii "channel", logChan s), (ascii "file", s.file),
    (ascii "dropped", decimal s.dropped)]

/-- The commit of a request that is known to be valid. -/
def logCommit (host : LogHost) (w : LogWorld) (level : Bytes) :
    LogSink → Except TclError (List (Bytes × Bytes)) × LogWorld
  | .current => (.ok [], { w with log := { w.log with level := level } })
  | .channel v => (.ok [], { w.release with log := ⟨level, v, [], false, w.log.dropped⟩ })
  | .file path =>
    let refused := Except.error (logError "oserror" (ascii "log: cannot open " ++
      (quoted path ++ ascii " for appending")))
    match host.opens path with
    | none => (refused, w)
    | some staged =>
      let w := w.opening staged
      if host.configures staged then (.ok [], { w.release with log := ⟨level, staged, path, true, w.log.dropped⟩ })
      else (refused, w.close staged)

/-- `log configure` -/
def logConfigure (host : LogHost) (rest : List Bytes) (w : LogWorld) :
    Except TclError (List (Bytes × Bytes)) × LogWorld :=
  if rest = [] then (.ok (logSettings w.log), w)
  else if rest.length % 2 ≠
    0 then (.error (logError "usage" (ascii "log configure: an option is missing its value")), w)
  else
    match logOptions w.channels (logPairs rest) w.log.level .current with
    | .error e => (.error e, w)
    | .ok (level, sink) => logCommit host w level sink

end Machteld
