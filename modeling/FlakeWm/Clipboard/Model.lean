import FlakeWm.Schemes.Run

/-! Clipboard takeover (`src/input/selection_persist.c`, the writers of
    `src/input/selection_data.c`, and `wlr_seat_set_selection` of the vendored wlroots).

    While a client owns the selection, the compositor asks it for every MIME type over a pipe and
    caches what it writes; when the selection becomes empty, an idle callback offers the cache
    instead. The state is one seat. At most one cache is alive: a client selection replaces the cache,
    and an installed one dies with its selection.

    A loop over `read` or `write` is given the results of the calls in order, with what the other
    process does in between; a list that no kernel can produce is not handled (`none`). `size` is the
    length of the data. Serials, drag and drop and the primary selection are left out. -/

namespace FlakeWm.Clipboard

def persistMaxSize : ℕ := 64 * 1024 * 1024
def persistReadChunk : ℕ := 16384

/-! ### Pipes -/

/-- The pipe to the owner of the selection: all that it wrote, what is not read yet, and whether the
    write end is closed. -/
structure Pipe where
  written : List UInt8 := []
  unread : List UInt8 := []
  closed : Bool := false

/-- `struct selection_writer`, with what it sent to its reader. -/
structure Writer where
  reader : ℕ
  offset : ℕ
  sent : List UInt8

/-- `struct persist_entry`; `fd` says that the read end is open. -/
structure Entry where
  mimeType : String
  data : List UInt8 := []
  cap : ℕ := 0
  complete : Bool := false
  failed : Bool := false
  fd : Bool := true
  pipe : Pipe := {}
  writers : List Writer := []

/-! ### Reading -/

inductive ReadResult where
  | chunk (n : ℕ)
  | eof
  | eintr
  | eagain
  | error

/-- What happens during `persist_entry_drain`: the answer of `realloc`, the result of a `read`, or a
    write or close by the client. -/
inductive Drain where
  | realloc (ok : Bool)
  | read (result : ReadResult)
  | clientWrite (bytes : List UInt8)
  | clientClose

def Pipe.write (p : Pipe) (bytes : List UInt8) : Option Pipe :=
  if p.closed then none
  else some { p with written := p.written ++ bytes, unread := p.unread ++ bytes }

def Pipe.close (p : Pipe) : Pipe := { p with closed := true }

namespace Entry

/-- `persist_entry_finish_read`. -/
def finishRead (e : Entry) : Entry := { e with fd := false }

/-- The capacity that is asked for when the buffer is full. -/
def nextCap (e : Entry) : ℕ := if e.cap ≠ 0 then e.cap * 2 else persistReadChunk

/-- The buffer is full and the next one exceeds the limit. -/
def overBudget (e : Entry) (total : ℕ) : Bool :=
  decide (e.data.length = e.cap) &&
    decide (total - e.data.length + e.nextCap > persistMaxSize)

/-- `n` bytes go from the pipe to the buffer. -/
def take (e : Entry) (n : ℕ) : Entry :=
  { e with
    data := e.data ++ e.pipe.unread.take n
    pipe := { e.pipe with unread := e.pipe.unread.drop n } }

/-- The loop of `persist_entry_drain`, with `total` of the selection. -/
def drainLoop (total : ℕ) (e : Entry) : List Drain → Option (ℕ × Entry)
  | .clientWrite bytes :: rest => do
    let pipe ← e.pipe.write bytes
    drainLoop total { e with pipe := pipe } rest
  | .clientClose :: rest => drainLoop total { e with pipe := e.pipe.close } rest
  | .realloc ok :: rest =>
    if e.data.length = e.cap ∧ !e.overBudget total then
      if ok then drainLoop (total + (e.nextCap - e.cap)) { e with cap := e.nextCap } rest
      else if rest.isEmpty then some (total, { e with failed := true }.finishRead) else none
    else none
  | .read result :: rest =>
    if e.data.length = e.cap then none
    else
      match result with
      | .chunk n =>
        if 0 < n ∧ n ≤ e.cap - e.data.length ∧ n ≤ e.pipe.unread.length then
          drainLoop total (e.take n) rest
        else none
      | .eintr => drainLoop total e rest
      | .eagain =>
        if e.pipe.unread = [] ∧ !e.pipe.closed ∧ rest.isEmpty then some (total, e) else none
      | .eof =>
        if e.pipe.unread = [] ∧ e.pipe.closed ∧ rest.isEmpty then
          some (total, { e with complete := true, failed := false }.finishRead)
        else none
      | .error =>
        if rest.isEmpty then some (total, { e with complete := false, failed := true }.finishRead)
        else none
  | [] =>
    if e.overBudget total then some (total, { e with failed := true }.finishRead) else none

/-- `persist_entry_drain`. -/
def drain (total : ℕ) (e : Entry) (script : List Drain) : Option (ℕ × Entry) :=
  if !e.fd then if script.isEmpty then some (total, e) else none
  else e.drainLoop total script

end Entry

/-! ### Writing -/

inductive WriteResult where
  | wrote (n : ℕ)
  | eintr
  | eagain
  | error

/-- How `selection_writer_flush` ends; the last two return true. -/
inductive FlushEnd where | again | finished | broken
  deriving DecidableEq

namespace Writer

/-- `selection_writer_flush`; the writer points to the data of its entry. -/
def flush (data : List UInt8) (w : Writer) : List WriteResult → Option (Writer × FlushEnd)
  | [] => if w.offset < data.length then none else some (w, .finished)
  | result :: rest =>
    if w.offset < data.length then
      match result with
      | .wrote n =>
        if 0 < n ∧ n ≤ data.length - w.offset then
          flush data { w with
            offset := w.offset + n
            sent := w.sent ++ (data.drop w.offset).take n } rest
        else none
      | .eintr => flush data w rest
      | .eagain => if rest.isEmpty then some (w, .again) else none
      | .error => if rest.isEmpty then some (w, .broken) else none
    else none

end Writer

/-! ### The cache -/

/-- A reader whose end of the pipe was closed: what it asked for, what the client had written for
    that, what the reader got, and whether the writer had come to its end. -/
structure Delivery where
  reader : ℕ
  mimeType : String
  written : List UInt8
  received : List UInt8
  finished : Bool

/-- `struct persist_selection`, with the source it was made from and the MIME types of that. -/
structure Persist where
  origin : ℕ
  offered : List String
  entries : List Entry
  total : ℕ := 0
  owned : Bool := false
  install : Bool := false
  mimeTypes : List String := []

/-- What owns the selection: a source of a client, one of `seat_set_selection_data`, or the cache. -/
inductive Source where
  | client (id : ℕ)
  | compositor (id : ℕ)
  | persist
  deriving DecidableEq

/-- The seat: its selection, the last selection that was not empty, the cache, whether the manager is
    still there, and what the readers of the cache got. -/
structure Seat where
  current : Option Source := none
  last : Option Source := none
  cache : Option Persist := none
  manager : Bool := true
  deliveries : List Delivery := []

def mimeTypeIgnored (mimeType : String) : Bool :=
  mimeType ∈ ["TARGETS", "MULTIPLE", "SAVE_TARGETS", "TIMESTAMP", "DELETE", "INSERT_SELECTION",
    "INSERT_PROPERTY"]

/-- `persist_selection_create`; `made` says for each MIME type whether its entry could be created. -/
def persistSelectionCreate (origin : ℕ) (mimeTypes : List String) (made : List Bool) :
    Option Persist :=
  let kept := (mimeTypes.zip made).filter fun m => m.2 && !mimeTypeIgnored m.1
  if kept.isEmpty then none
  else some {
    origin := origin
    offered := mimeTypes
    entries := (kept.map fun m => { mimeType := m.1 }).reverse }

/-- The readers of an entry are cut off, `persist_entry_destroy`. -/
def Entry.cutOff (e : Entry) : List Delivery :=
  e.writers.map fun w => ⟨w.reader, e.mimeType, e.pipe.written, w.sent, false⟩

/-- `persist_find_entry`, as a position. -/
def Persist.persistFindEntry (p : Persist) (mimeType : String) : ℕ :=
  p.entries.findIdx fun e => e.mimeType = mimeType

namespace Seat

/-- `persist_source_destroy`. -/
def persistSourceDestroy (s : Seat) : Seat :=
  match s.cache with
  | none => s
  | some p =>
    { s with cache := none, deliveries := s.deliveries ++ p.entries.flatMap Entry.cutOff }

/-- `handle_set_selection`; for a client source with its MIME types. -/
def handleSetSelection (s : Seat) (mimeTypes : List String) (made : List Bool) : Seat :=
  if !s.manager then s
  else
    match s.current with
    | some .persist => s
    | some (.compositor _) => s
    | none =>
      match s.cache with
      | none => s
      | some p => if !p.owned && !p.install then { s with cache := some { p with install := true } }
        else s
    | some (.client id) =>
      { s.persistSourceDestroy with cache := persistSelectionCreate id mimeTypes made }

/-- The old selection is destroyed and the new one is in place, but not announced yet. -/
def replace (s : Seat) (source : Option Source) : Seat :=
  let s := if s.current = some .persist then s.persistSourceDestroy else s
  { s with current := source, last := source.or s.last }

/-- `wlr_seat_set_selection`, and `seat_handle_selection_source_destroy` for an owner that is gone. -/
def wlrSeatSetSelection (s : Seat) (source : Option Source) (mimeTypes : List String)
    (made : List Bool) : Seat :=
  if s.current = source then s else (s.replace source).handleSetSelection mimeTypes made

/-- The loop of `handle_install` over the entries: each is drained, and dropped unless it is whole. -/
def drainEntries : ℕ → List Entry → List (List Drain) → Option (ℕ × List Entry)
  | total, [], _ => some (total, [])
  | _, _ :: _, [] => none
  | total, e :: es, script :: scripts => do
    let (total, e) ← e.drain total script
    let (total, es) ← drainEntries total es scripts
    if !e.complete || e.failed || e.data.length = 0 then some (total, es)
    else some (total, e :: es)

/-- `handle_install`; `count` of the MIME types could be copied. -/
def handleInstall (s : Seat) (scripts : List (List Drain)) (count : ℕ) : Option Seat :=
  match s.cache with
  | none => none
  | some p =>
    if !p.install then none
    else
      let p := { p with install := false }
      if s.current.isSome then some { s with cache := some p }
      else do
        let (total, entries) ← drainEntries p.total p.entries scripts
        let p := { p with total := total, entries := entries }
        if count = 0 ∨ entries.isEmpty then some ({ s with cache := some p }.persistSourceDestroy)
        else
          let p := { p with owned := true, mimeTypes := (entries.map Entry.mimeType).take count }
          let s := { s with cache := some p }
          some (s.wlrSeatSetSelection (some .persist) [] [])

/-- `handle_seat_destroy`. -/
def handleSeatDestroy (s : Seat) : Seat :=
  match s.cache with
  | none => { s with manager := false }
  | some p => { if p.owned then s else s.persistSourceDestroy with manager := false }

/-! ### Entries and their readers -/

/-- Writing to the entry at a position of the cache. -/
def setEntry (s : Seat) (p : Persist) (i : ℕ) (e : Entry) : Seat :=
  { s with cache := some { p with entries := p.entries.set i e } }

/-- `handle_readable`. -/
def handleReadable (s : Seat) (i : ℕ) (script : List Drain) : Option Seat := do
  let p ← s.cache
  let e ← p.entries[i]?
  if !e.fd then none
  else do
    let (total, e) ← e.drain p.total script
    some (s.setEntry { p with total := total } i e)

/-- The client writes to the pipe of an entry, or closes it. -/
def clientWrites (s : Seat) (i : ℕ) (bytes : List UInt8) : Option Seat := do
  let p ← s.cache
  let e ← p.entries[i]?
  let pipe ← e.pipe.write bytes
  some (s.setEntry p i { e with pipe := pipe })

def clientCloses (s : Seat) (i : ℕ) : Option Seat := do
  let p ← s.cache
  let e ← p.entries[i]?
  some (s.setEntry p i { e with pipe := e.pipe.close })

def deliver (s : Seat) (d : Delivery) : Seat := { s with deliveries := s.deliveries ++ [d] }

/-- The writer is gone, and its reader has what was sent. -/
def selectionWriterDestroy (s : Seat) (p : Persist) (i : ℕ) (e : Entry) (rest : List Writer)
    (w : Writer) (finished : Bool) : Seat :=
  (s.setEntry p i { e with writers := rest }).deliver
    ⟨w.reader, e.mimeType, e.pipe.written, w.sent, finished⟩

/-- The end of a reader for which there is no entry any more. -/
def closeReader (s : Seat) (reader : ℕ) (mimeType : String) : Seat :=
  s.deliver ⟨reader, mimeType, [], [], false⟩

/-- `persist_source_send` to a new reader, with `selection_writers_add`; `watched` says that the event
    source could be added. -/
def persistSourceSend (s : Seat) (reader : ℕ) (mimeType : String) (script : List WriteResult)
    (watched : Bool) : Option Seat :=
  if s.current ≠ some .persist then none
  else do
    let p ← s.cache
    let i := p.persistFindEntry mimeType
    match p.entries[i]? with
    | none => some (s.closeReader reader mimeType)
    | some e =>
      if !s.manager then some (s.closeReader reader mimeType)
      else do
        let (w, result) ← Writer.flush e.data ⟨reader, 0, []⟩ script
        match result with
        | .finished => some (s.selectionWriterDestroy p i e e.writers w true)
        | .broken => some (s.selectionWriterDestroy p i e e.writers w false)
        | .again =>
          if watched then some (s.setEntry p i { e with writers := w :: e.writers })
          else some (s.selectionWriterDestroy p i e e.writers w false)

/-- `handle_writable`. -/
def handleWritable (s : Seat) (i j : ℕ) (script : List WriteResult) (hangup : Bool) :
    Option Seat := do
  let p ← s.cache
  let e ← p.entries[i]?
  let w ← e.writers[j]?
  let (w, result) ← w.flush e.data script
  match result with
  | .finished => some (s.selectionWriterDestroy p i e (e.writers.eraseIdx j) w true)
  | .broken => some (s.selectionWriterDestroy p i e (e.writers.eraseIdx j) w false)
  | .again =>
    if hangup then some (s.selectionWriterDestroy p i e (e.writers.eraseIdx j) w false)
    else some (s.setEntry p i { e with writers := e.writers.set j w })

end Seat

/-! ### Events -/

inductive Event where
  | setSelection (source : Option Source) (mimeTypes : List String) (made : List Bool)
  | clientWrites (i : ℕ) (bytes : List UInt8)
  | clientCloses (i : ℕ)
  | readable (i : ℕ) (script : List Drain)
  | install (scripts : List (List Drain)) (count : ℕ)
  | send (reader : ℕ) (mimeType : String) (script : List WriteResult) (watched : Bool)
  | writable (i j : ℕ) (script : List WriteResult) (hangup : Bool)
  | seatDestroy

def step (s : Seat) : Event → Option Seat
  | .setSelection source mimeTypes made =>
    if source = some .persist then none else some (s.wlrSeatSetSelection source mimeTypes made)
  | .clientWrites i bytes => s.clientWrites i bytes
  | .clientCloses i => s.clientCloses i
  | .readable i script => s.handleReadable i script
  | .install scripts count => s.handleInstall scripts count
  | .send reader mimeType script watched => s.persistSourceSend reader mimeType script watched
  | .writable i j script hangup => s.handleWritable i j script hangup
  | .seatDestroy => if s.manager then some s.handleSeatDestroy else none

end FlakeWm.Clipboard
