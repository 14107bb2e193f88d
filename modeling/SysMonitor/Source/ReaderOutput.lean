import SysMonitor.Library.Runs
import SysMonitor.Source.Filter

/-!
# What the reader prints of a record: native/jni/main.cpp

The loop body of `main` after `ReadContent`: a record that passes the filter is formatted into
a buffer, and the buffer is handed to `printf` as its format.
-/

namespace SysMonitor.Source.ReaderOutput
open SysMonitor.Library (bind_eq_ok)
open SysMonitor.Source.Filter SysMonitor.Source.Reader
open SysMonitor.Source.ReaderInterface SysMonitor.Source.ReaderStrings

/-- `"[%s][%d][%s][%s][%s][%s][0x%08x][%s]\n"` -/
def lineText (time proc : List Byte) (r : LogRecord) : List Byte :=
  literal "[" ++ time ++ literal "][" ++ decimal r.header.pid.toInt ++ literal "][" ++ proc ++
    literal "][" ++ operationToString r.header.operation ++ literal "][" ++
    apiToString r.header.api ++ literal "][" ++ r.path ++ literal "][" ++
    resultText r.header.result ++ literal "][" ++ r.details ++ literal "]\n"

/-- What `main` puts into its `buffer`. -/
def composeLine (w : World) (r : LogRecord) : Except Fault (List Byte) := do
  let time := getTime w.localtime r.header.sec r.header.nsec 64
  let proc ← processName w.surroundings r.header.pid w.buffer 256
  return snprintf 10240 (lineText time proc r)

/-- What `main` prints of a record. The worlds are those that the rules meet one after the other,
and then `main` itself. -/
def printRecord (worlds : Nat → World) (rules : List FilterItem) (r : LogRecord) :
    Except Fault (List Byte) := do
  let result ← filterLog worlds rules r
  if result = .resultInclude then
    let buffer ← composeLine (worlds rules.length) r
    printf buffer
  else return []

end SysMonitor.Source.ReaderOutput
