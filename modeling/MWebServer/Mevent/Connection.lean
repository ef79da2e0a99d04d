import MWebServer.Mevent.Kernel
import MWebServer.Mevent.RingBuffer

/-!
# Events and connections (`mevent/event.c`, `mevent/connection.c`)

A `Session` is one connection with its event, its two ring buffers and the object
its `handler` field points to, a request of type `H`.  The three objects carry a
live flag; `connection_free` clears them, and gives the blocks of the ring buffers
back, but not the two `ring_buffer` objects.  A function that reads or writes a field
of an object that is no longer live is recorded in `touchedDead` and goes on with
what the object last held: in C this is an access to freed memory.

The functions call back through the pointers a connection is created with:
`message_callback` is a parameter of the readable side, and `disconnected_cb`, which
frees the handler, is part of `connectionFree`.
-/

namespace MWebServer

/-! ## Events -/

/-- The bits of an epoll mask. -/
structure EpollMask where
  epollIn : Bool
  epollPri : Bool
  epollOut : Bool
  epollErr : Bool
  epollHup : Bool
  deriving DecidableEq, Repr

/-- `event`, without its callbacks. -/
structure Event where
  fd : Int
  eventFlag : EpollMask
  activeEvent : EpollMask
  isWorking : Bool
  deriving DecidableEq, Repr

/-- What the kernel reports for an event that waits for `flag`: hang-up and error are always
reported. -/
def EpollMask.reported (flag ready : EpollMask) : EpollMask where
  epollIn := flag.epollIn && ready.epollIn
  epollPri := flag.epollPri && ready.epollPri
  epollOut := flag.epollOut && ready.epollOut
  epollErr := ready.epollErr
  epollHup := ready.epollHup

/-! ## Connections -/

/-- `connection.state` -/
inductive ConnState where
  /-- `0` -/
  | open
  /-- `State_Closing` -/
  | closing
  /-- `State_Closed` -/
  | closed
  deriving DecidableEq, Repr

/-- `connection`, without its callbacks and the pointers to the other two objects. -/
structure Connection where
  connfd : Int
  ringBufferRead : RingBuffer
  ringBufferWrite : RingBuffer
  state : ConnState
  timeOnConnect : Int
  deriving DecidableEq, Repr

/-- A connection, the objects that belong to it, and the kernel behind them. -/
structure Session (H : Type) where
  conn : Connection
  ev : Event
  /-- `conn->handler` -/
  handler : H
  connLive : Bool
  evLive : Bool
  handlerLive : Bool
  /-- What `conn->ring_buffer_read` has on the heap. -/
  readHeap : RingBuffer.Heap
  /-- What `conn->ring_buffer_write` has there. -/
  writeHeap : RingBuffer.Heap
  /-- How often `connection_free` has run. -/
  frees : Nat
  /-- How often `disconnected_cb` has run. -/
  disconnects : Nat
  /-- A field of an object was read or written that was not live. -/
  touchedDead : Bool
  kernel : Kernel

namespace Session

variable {H : Type}

/-- A field of the connection is read or written. -/
def touchConn (s : Session H) : Session H := { s with touchedDead := s.touchedDead || !s.connLive }

/-- A field of the event is read or written. -/
def touchEv (s : Session H) : Session H := { s with touchedDead := s.touchedDead || !s.evLive }

/-- A field of the request is read or written. -/
def touchHandler (s : Session H) : Session H :=
  { s with touchedDead := s.touchedDead || !s.handlerLive }

/-- Another read buffer. -/
def setRead (s : Session H) (rb : RingBuffer) : Session H :=
  { s with conn := { s.conn with ringBufferRead := rb } }

/-- Another write buffer. -/
def setWrite (s : Session H) (rb : RingBuffer) : Session H :=
  { s with conn := { s.conn with ringBufferWrite := rb } }

/-- `conn->state = state` -/
def setConnState (s : Session H) (state : ConnState) : Session H :=
  let s := s.touchConn
  { s with conn := { s.conn with state := state } }

/-! ## `event.c` -/

/-- `event_enable_writing(conn->conn_event)` -/
def eventEnableWriting (s : Session H) : Session H :=
  let s := s.touchConn.touchEv
  { s with ev := { s.ev with eventFlag := { s.ev.eventFlag with epollOut := true } } }

/-- `event_disable_writing(conn->conn_event)` -/
def eventDisableWriting (s : Session H) : Session H :=
  let s := s.touchConn.touchEv
  { s with ev := { s.ev with eventFlag := { s.ev.eventFlag with epollOut := false } } }

/-- `event_free`, with `event_stop` -/
def eventFree (s : Session H) : Session H :=
  let s := s.touchEv
  { s with
    ev := { s.ev with isWorking := false }
    evLive := false
    kernel := s.kernel.close s.ev.fd }

/-! ## `connection.c` -/

/-- `onDisconnected`, to which `disconnected_cb` is set: `free(conn->handler)`. -/
def onDisconnected (s : Session H) : Session H :=
  let s := s.touchConn
  { s with
    handlerLive := false
    disconnects := s.disconnects + 1
    -- `free` of an object that is freed already
    touchedDead := s.touchedDead || !s.handlerLive }

/-- `ring_buffer_free` on the two ring buffers. -/
def ringBuffersFree (s : Session H) : Session H :=
  let s := s.touchConn
  { s with readHeap := s.readHeap.free, writeHeap := s.writeHeap.free }

/-- `connection_free` -/
def connectionFree (s : Session H) : Session H :=
  let s := s.touchConn.onDisconnected.touchConn.eventFree.ringBuffersFree
  { s with connLive := false, frees := s.frees + 1 }

/-- `connection_disconnect`, under its names `connection_passive_close` and
`connection_active_close` -/
def connectionDisconnect (s : Session H) : Session H :=
  let s := s.setConnState .closing
  if s.conn.ringBufferWrite.readableBytes > 0 then s.eventEnableWriting
  else s.connectionFree.setConnState .closed

/-- The bytes `[msg, msg + len)` of the write buffer, handed to `send`. -/
def sendPending (env : Env) (s : Session H) (off len : Int) : Except Fault (Int × Session H) := do
  let data ← readSlice s.conn.ringBufferWrite.msg off len
  let (n, kernel) := s.kernel.send env data
  pure (n, { s with kernel := kernel })

/-- `ring_buffer_release_bytes` on the write buffer. -/
def releaseWrite (s : Session H) (n : Int) : Except Fault (Session H) := do
  let rb ← s.conn.ringBufferWrite.releaseBytes n
  pure (s.setWrite rb)

/-- What `connection_send_buffer` does once `send` has accepted `n` of `len` bytes. -/
def sendBufferDone (s : Session H) (n len : Int) : Except Fault (Int × Session H) :=
  if n = -1 then pure (-1, s)
  else if n > 0 then do
    let s ← s.releaseWrite n
    pure (if n < len then (1, s.eventEnableWriting) else (0, s))
  else pure (-1, s)

/-- `connection_send_buffer` -/
def connectionSendBuffer (env : Env) (s : Session H) : Except Fault (Int × Session H) :=
  let s := s.touchConn
  match s.conn.ringBufferWrite.getMsg with
  | (some msg, len) =>
      if len > 0 then do
        let (n, s) ← s.sendPending env msg len
        s.sendBufferDone n len
      else pure (-1, s)
  | (none, _) => pure (-1, s)

/-- What `event_writable_callback` does once `send` has accepted `n` bytes. -/
def writableDone (s : Session H) (n : Int) : Except Fault (Session H) :=
  if n > 0 then do
    let s ← s.releaseWrite n
    if s.conn.ringBufferWrite.readableBytes = 0 then
      let s := s.eventDisableWriting
      if s.conn.state = .closing then pure (s.connectionFree.setConnState .closed) else pure s
    else pure s
  else pure s

/-- `event_writable_callback` -/
def eventWritableCallback (env : Env) (s : Session H) : Except Fault (Session H) :=
  let s := s.touchConn
  match s.conn.ringBufferWrite.getMsg with
  | (some msg, len) =>
      if len > 0 then do
        let (n, s) ← s.sendPending env msg len
        s.writableDone n
      else pure s
  | (none, _) => pure s

/-- `read_buffer`, where `readv` delivers `incoming` (`none` for `-1`).  The first vector
begins at `ring_buffer_readable_start`. -/
def readBuffer (fresh : Nat → Byte) (incoming : Option (List Byte)) (s : Session H) :
    Except Fault (Int × Session H) :=
  let s := s.touchConn
  let rb := s.conn.ringBufferRead
  let start := rb.readableStart
  let available := rb.availableBytes
  match incoming with
  | none => pure (-1, s)
  | some data =>
      if data.length = 0 then pure (0, s)
      else do
        let msg ← memcpy rb.msg start (data.take available.toNat)
        if (data.length : Int) ≤ available then
          pure (data.length, s.setRead { rb with msg := msg, end_ := rb.end_ + data.length })
        else do
          let rb ← { rb with msg := msg, end_ := rb.end_ + available }.pushData
            fresh (data.drop available.toNat)
          pure (data.length, s.setRead rb)

/-- `event_readable_callback` -/
def eventReadableCallback (env : Env) (messageCallback : Session H → Except Fault (Session H))
    (incoming : Option (List Byte)) (s : Session H) : Except Fault (Session H) := do
  let (nread, s) ← s.readBuffer env.fresh incoming
  if nread > 0 then messageCallback s else pure s.connectionDisconnect

/-! ## One turn of the event loop -/

/-- What becomes ready on the connection, and what a read would deliver then. -/
structure Ready where
  mask : EpollMask
  incoming : Option (List Byte)

/-- The part of `event_handler` behind its readable callback. -/
def eventHandlerOut (env : Env) (s : Session H) : Except Fault (Session H) :=
  let s := s.touchEv
  if s.ev.activeEvent.epollOut then s.eventWritableCallback env else pure s

/-- `event_handler` -/
def eventHandler (env : Env) (messageCallback : Session H → Except Fault (Session H))
    (incoming : Option (List Byte)) (s : Session H) : Except Fault (Session H) :=
  let s := s.touchEv
  if s.ev.activeEvent.epollHup || s.ev.activeEvent.epollErr then pure s.eventFree
  else if s.ev.activeEvent.epollIn || s.ev.activeEvent.epollPri then do
    let s ← s.eventReadableCallback env messageCallback incoming
    s.eventHandlerOut env
  else s.eventHandlerOut env

/-- The body of the loop of `epoller_dispatch` for this connection.  An event that has been
freed is no longer in the epoll set, and an event nothing is reported for is not visited. -/
def epollerDispatch (env : Env) (messageCallback : Session H → Except Fault (Session H))
    (ready : Ready) (s : Session H) : Except Fault (Session H) :=
  let mask := s.ev.eventFlag.reported ready.mask
  if s.evLive ∧ mask ≠ ⟨false, false, false, false, false⟩ then
    eventHandler env messageCallback ready.incoming
      { s with ev := { s.ev with activeEvent := mask } }
  else pure s

end Session

end MWebServer
