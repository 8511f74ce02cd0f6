import PlayerTrace.Basic
import PlayerTrace.Lib.Stdio

/-!
# `FileSink`

`src/file_sink.cpp`: a sink that appends one line per event to a file. A batch is
acknowledged only once all of it has been flushed and – in durable mode – synced; a write
that fails on the way is rolled back to the end the file had before it, and a rollback that
fails too makes the sink fail for good. Opening a file cuts an incomplete last line off.

Every call into the C library is answered by `PlayerTrace.Answers`, at the place of the
call at which it is made, and so is every question to the fault hook; a process may be
killed before any operation that changes the file. A call is then a computation in
`Stdio.Process`.

Offsets are natural numbers: the source refuses to compile with offsets of less than 64
bits. That this is right for the scan of an existing file is `PlayerTrace.Scan.scan_refines`.
The mutex is left out, since no call returns before it has released it, and so is
the claim on the path, except that a claim that is refused makes the sink fail from the
beginning.
-/

namespace PlayerTrace

open Stdio

/-! ### What the environment decides -/

/-- The operations the fault hook is asked about. -/
inductive SinkOperation
  | open
  | partialWrite
  | write
  | flush
  | sync
  | truncate
  deriving DecidableEq, Repr

/-- The operations that change a file. -/
inductive FileOperation
  | fwrite
  | fflush
  | ftruncate
  | fsync
  deriving DecidableEq, Repr

/-- Where a call is when it asks the environment. -/
inductive Place
  /-- `ensure_open`. -/
  | opening
  /-- `repair_tail` takes the size. -/
  | sizing
  /-- The backward scan is at its block `j`, counted from the end. -/
  | block (j : Nat)
  /-- `repair_tail` knows the end of the last complete line. -/
  | repairing
  /-- `write` takes the rollback point. -/
  | starting
  /-- `write` is at event `i`. -/
  | event (i : Nat)
  /-- `write` ends the line of event `i`. -/
  | newline (i : Nat)
  /-- The flush and the sync of `write` or `flush_now`. -/
  | finishing
  /-- `roll_back`. -/
  | rollingBack
  /-- `close_file`. -/
  | closing
  deriving DecidableEq, Repr

/-- The environment's answers to one call; by default nothing fails. -/
structure Answers where
  /-- The fault hook. -/
  fault : SinkOperation → Place → Bool := fun _ _ => false
  /-- The process is killed before this operation. -/
  killed : FileOperation → Place → Bool := fun _ _ => false
  /-- `fopen` with `r+b` succeeds on a file that exists. -/
  reopens : Bool := true
  /-- `fopen` with `w+b` succeeds. -/
  creates : Bool := true
  seek : Place → Bool := fun _ => true
  /-- How much is read when it is not everything. -/
  read : Place → Option Nat := fun _ => none
  write : Place → Accept := fun _ => {}
  /-- How much a failing flush hands on. -/
  flush : Place → Option Nat := fun _ => none
  truncate : Place → Bool := fun _ => true
  sync : Place → Bool := fun _ => true

namespace Answers

variable (a : Answers) (p : Place) (h : Stream)

def fwrite (data : List UInt8) : Process (Bool × Stream) :=
  h.unless (a.killed .fwrite p) (h.fwrite (a.write p) data)

def fflush : Process (Bool × Stream) :=
  h.unless (a.killed .fflush p) (h.fflush (a.flush p))

/-- `truncate_to`. -/
def truncateTo (length : Nat) : Process (Bool × Stream) :=
  h.unless (a.killed .ftruncate p) (h.ftruncate (a.truncate p) length)

/-- `!fault("truncate") && truncate_to(…)`. -/
def cutBack (length : Nat) : Process (Bool × Stream) :=
  if a.fault .truncate p then pure (false, h) else a.truncateTo p h length

/-- `json.empty() || fwrite(…)`, the condition under which a line goes on. -/
def fwriteText (data : List UInt8) : Process (Bool × Stream) :=
  if data.isEmpty then pure (true, h) else a.fwrite p h data

/-- `sync_to_disk`. -/
def syncToDisk : Process (Bool × Stream) :=
  h.unless (a.killed .fsync p) (h.fsync (a.sync p))

/-- `seek_to_end`. -/
def seekToEnd : Option Nat × Stream := h.seekEnd (a.seek p)

/-- `fopen` with `r+b`, then with `w+b`: the second creates the file, and empties one that
exists. -/
def openFile (file : Option File) : Option Stream :=
  match file, a.reopens with
  | some f, true => some { file := f }
  | none, _ => if a.creates then some { file := {} } else none
  | some f, false => if a.creates then some { file := f.cut 0 } else none

end Answers

/-! ### The end of the last complete line -/

/-- The byte that ends a line. -/
def newline : UInt8 := 10

/-- The size of the blocks of the backward scan. -/
def kBlock : Nat := 64 * 1024

/-- The inner loop: the offset just past the last newline among the first `i` bytes. -/
def lastNewline (buffer : List UInt8) : Nat → Option Nat
  | 0 => none
  | i + 1 => if buffer[i]? = some newline then some (i + 1) else lastNewline buffer i

/-- The loop over the blocks, from `pos` down. Every round lowers `pos`, so that with `pos`
rounds allowed the loop always ends by itself. -/
def scanBlocks (a : Answers) : Nat → Nat → Nat → Stream → Option Nat × Stream
  | rounds, j, pos, h =>
    if pos = 0 then (some 0, h)
    else match rounds with
      | 0 => (none, h)
      | rounds + 1 =>
        let chunk := if pos < kBlock then pos else kBlock
        let start := pos - chunk
        match h.seekSet (a.seek (.block j)) start with
        | (false, h) => (none, h)
        | (true, h) =>
          match h.fread (a.read (.block j)) chunk with
          | (buffer, h) =>
            if buffer.length ≠ chunk then (none, h)
            else match lastNewline buffer buffer.length with
              | some i => (some (start + i), h)
              | none => scanBlocks a rounds (j + 1) start h

/-- `find_last_complete_line_end`. -/
def findLastCompleteLineEnd (a : Answers) (size : Nat) (h : Stream) : Option Nat × Stream :=
  scanBlocks a size 0 size h

/-! ### The sink -/

/-- The file at the path of a sink, behind the stream `file_` when that is open. -/
inductive Output
  | closed (file : Option File)
  | opened (stream : Stream)
  deriving DecidableEq

/-- The file, if there is one. -/
def Output.file : Output → Option File
  | .closed file => file
  | .opened h => some h.file

structure FileSink where
  path : String
  durableSync : Bool := true
  output : Output
  /-- The permanent failure. -/
  failure : Status := {}
  cancelled : Bool := false
  deriving DecidableEq

namespace FileSink

/-- The constructor; `refused` is the text with which the path was refused. -/
def create (path : String) (durableSync : Bool) (refused : Option String) (file : Option File) :
    FileSink where
  path := path
  durableSync := durableSync
  output := .closed file
  failure := match refused with
    | none => {}
    | some error => ⟨.invalidConfig, error⟩

/-- What is in the file; nothing if there is none. -/
def content (s : FileSink) : List UInt8 := (s.output.file.map File.bytes).getD []

/-- The sink with `file_` in this state. -/
def withStream (s : FileSink) (h : Stream) : FileSink := { s with output := .opened h }

variable (a : Answers) (s : FileSink)

/-- `close_file`. -/
def closeFile : Process FileSink :=
  match s.output with
  | .closed _ => pure s
  | .opened h => do
    let (_, h) ← a.fflush .closing h
    pure { s with output := .closed (some h.file) }

/-- `fail_hard`. -/
def failHard (message : String) : Process (Status × FileSink) := do
  let s ← s.closeFile a
  let failure : Status := ⟨.sinkError, message ++
    " (this FileSink is now permanently failed; events remain in durable storage)"⟩
  pure (failure, { s with failure := failure })

/-- `roll_back`, with `file_` at hand. -/
def rollBack (h : Stream) (goodOffset : Nat) (message : String) : Process (Status × FileSink) := do
  let (_, h) ← a.fflush .rollingBack h
  let (truncated, h) ← a.cutBack .rollingBack h goodOffset
  if truncated = false then (s.withStream h).failHard a (message ++ "; rollback failed")
  else
    let (synced, h) ← a.syncToDisk .rollingBack h
    if synced = false then
      (s.withStream h).failHard a (message ++ "; rollback could not be made durable")
    else
      match a.seekToEnd .rollingBack h with
      | (none, h) =>
        (s.withStream h).failHard a (message ++ "; could not reposition after rollback")
      | (some _, h) => pure (⟨.sinkError, message⟩, s.withStream h)

/-- The repair proper, once the end of the last complete line is known not to be the end of
the file: whether it succeeded. -/
def cutTail (h : Stream) (goodEnd : Nat) : Process (Bool × Stream) := do
  let (_, h) ← a.fflush .repairing h
  let (truncated, h) ← a.cutBack .repairing h goodEnd
  if truncated = false then pure (false, h)
  else
    let (synced, h) ← a.syncToDisk .repairing h
    if synced = false then pure (false, h)
    else
      match a.seekToEnd .repairing h with
      | (none, h) => pure (false, h)
      | (some _, h) => pure (true, h)

/-- `repair_tail`, with `file_` at hand. -/
def repairTail (h : Stream) : Process (Status × FileSink) :=
  match a.seekToEnd .sizing h with
  | (none, h) => (s.withStream h).failHard a ("FileSink: could not size '" ++ s.path ++ "'")
  | (some size, h) =>
    if size = 0 then pure ({}, s.withStream h)
    else
      match findLastCompleteLineEnd a size h with
      | (none, h) =>
        (s.withStream h).failHard a ("FileSink: could not inspect the tail of '" ++ s.path ++ "'")
      | (some goodEnd, h) =>
        if goodEnd = size then
          match a.seekToEnd .repairing h with
          | (none, h) => (s.withStream h).failHard a ("FileSink: could not seek '" ++ s.path ++ "'")
          | (some _, h) => pure ({}, s.withStream h)
        else do
          let (repaired, h) ← cutTail a h goodEnd
          if repaired = false then
            (s.withStream h).failHard a
              ("FileSink: could not repair the incomplete final line of '" ++ s.path ++ "'")
          else pure ({}, s.withStream h)

/-- `ensure_open`. -/
def ensureOpen : Process (Status × FileSink) :=
  if s.failure.ok = false then pure (s.failure, s)
  else
    match s.output with
    | .opened _ => pure ({}, s)
    | .closed file =>
      if a.fault .open .opening then pure (⟨.sinkError, "FileSink: injected open failure"⟩, s)
      else
        match a.openFile file with
        | none => pure (⟨.sinkError, "FileSink: could not open '" ++ s.path ++ "'"⟩, s)
        | some h => s.repairTail a h

/-! ### `write` and `flush` -/

/-- The loop of `write` over the events: the message of the failure that ended it, if one
did. -/
def writeEvents (path : String) :
    Nat → List (List UInt8) → Stream → Process (Option String × Stream)
  | _, [], h => pure (none, h)
  | i, json :: rest, h =>
    if a.fault .partialWrite (.event i) then do
      -- a torn write: a part of the line and no newline
      let (_, h) ← a.fwriteText (.event i) h (json.take (json.length / 2 + 1))
      pure (some "FileSink: injected partial write", h)
    else if a.fault .write (.event i) then
      pure (some "FileSink: injected write failure", h)
    else do
      let (taken, h) ← a.fwriteText (.event i) h json
      if taken = false then pure (some ("FileSink: write failed for '" ++ path ++ "'"), h)
      else
        let (ended, h) ← a.fwrite (.newline i) h [newline]
        if ended = false then pure (some ("FileSink: write failed for '" ++ path ++ "'"), h)
        else writeEvents path (i + 1) rest h

/-- The flush and the sync that `write` and `flush_now` end with, and the message when one
of them fails. -/
def finish (h : Stream) : Process (Option String × Stream) :=
  if a.fault .flush .finishing then pure (some "FileSink: injected flush failure", h)
  else do
    let (flushed, h) ← a.fflush .finishing h
    if flushed = false then pure (some ("FileSink: flush failed for '" ++ s.path ++ "'"), h)
    else if s.durableSync = false then pure (none, h)
    else if a.fault .sync .finishing then pure (some "FileSink: injected sync failure", h)
    else
      let (synced, h) ← a.syncToDisk .finishing h
      if synced = false then
        pure (some ("FileSink: durable sync failed for '" ++ s.path ++ "'"), h)
      else pure (none, h)

/-- `write` once the file is open. -/
def writeOpened (h : Stream) (batch : List (List UInt8)) : Process (Status × FileSink) :=
  match a.seekToEnd .starting h with
  | (none, h) =>
    (s.withStream h).failHard a ("FileSink: could not determine the end of '" ++ s.path ++ "'")
  | (some start, h) => do
    let (failed, h) ← writeEvents a s.path 0 batch h
    match failed with
    | some message => s.rollBack a h start message
    | none =>
      let (failed, h) ← s.finish a h
      match failed with
      | some message => s.rollBack a h start message
      | none => pure ({}, s.withStream h)

/-- `write`, of the texts of a batch. -/
def write (batch : List (List UInt8)) : Process (Status × FileSink) :=
  if s.cancelled then
    pure (⟨.sinkError, "FileSink: cancelled; '" ++ s.path ++ "' is shutting down"⟩, s)
  else do
    let (ready, s) ← s.ensureOpen a
    if ready.ok = false then pure (ready, s)
    else
      match s.output with
      | .opened h => s.writeOpened a h batch
      -- not reached: `ensure_open` succeeds only with the file open
      | .closed _ => pure (ready, s)

/-- `flush_now`. -/
def flushNow : Process (Status × FileSink) :=
  if s.failure.ok = false then pure (s.failure, s)
  else
    match s.output with
    | .closed _ => pure ({}, s)
    | .opened h => do
      let (failed, h) ← s.finish a h
      match failed with
      | some message => pure (⟨.sinkError, message⟩, s.withStream h)
      | none => pure ({}, s.withStream h)

/-- `request_cancel`. -/
def requestCancel : FileSink := { s with cancelled := true }

end FileSink

end PlayerTrace
