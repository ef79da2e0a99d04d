import MWebServer.Base

/-!
# The system around a connection

What the server asks of the kernel while it handles an event: `send` and `sendfile`
on the one socket, `openat`, `fstat` and `close` on files.  An `Env` fixes what the
kernel answers during one event, and a `Kernel` records what it was asked for: the
bytes the socket has accepted, the descriptors that were opened and closed.  An `Env`
also has what the server never wrote and may read all the same: memory that is fresh
from `malloc`, and memory beyond a block.

A descriptor is never handed out twice, so that a record of it names one file.
-/

namespace MWebServer

/-- What a path can lead to. -/
inductive Inode where
  | file (content : List Byte)
  /-- A directory, with its own `st_size` and its `index.html`. -/
  | dir (stSize : Int) (index : Option Inode)

/-- `st_size` -/
def Inode.stSize : Inode → Int
  | .file content => content.length
  | .dir size _ => size

/-- The settings of the server, and what the system around it does during one event. -/
structure Env where
  /-- `server_config.rootdir_fd` -/
  rootdirFd : Int
  /-- `server_config.connect_time_limit` -/
  connectTimeLimit : Int
  /-- `server_config.timeout_keep_alive` -/
  timeoutKeepAlive : Int
  /-- What `openat(rootdir_fd, path, O_RDONLY)` opens. -/
  root : List Byte → Option Inode
  /-- `time(NULL)` -/
  now : Int
  /-- The date of a time, as `strftime` writes it. -/
  date : Int → List Byte
  /-- How much the `n`-th call of `send` accepts, `none` for `-1`. -/
  send : Nat → Option Nat
  /-- How much the `n`-th call of `sendfile` accepts, `none` for `-1`. -/
  sendfile : Nat → Option Nat
  /-- What `malloc` has left in a fresh block. -/
  fresh : Nat → Byte
  /-- What `atoi` finds in memory beyond the block of the read buffer; any other access there is
  a fault. -/
  beyond : List Byte

/-- A call of `openat`. -/
structure Opened where
  dirfd : Int
  path : List Byte
  /-- The descriptor, or `-1`. -/
  fd : Int
  deriving DecidableEq, Repr

/-- What the kernel has seen of one connection. -/
structure Kernel where
  /-- The bytes accepted by the socket. -/
  sent : List Byte
  /-- How many calls of `send` and of `sendfile` there were. -/
  sends : Nat
  sendfiles : Nat
  /-- The descriptors handed out. -/
  nextFd : Nat
  files : Nat → Option Inode
  opened : List Opened
  closed : List Int

namespace Kernel

/-- What a socket accepts of `data`, when it has room for `room` bytes. -/
def accepted (room : Option Nat) (data : List Byte) : Int × List Byte :=
  match room with
  | none => (-1, [])
  | some n => (min n data.length, data.take n)

/-- `send` -/
def send (env : Env) (data : List Byte) (k : Kernel) : Int × Kernel :=
  let (n, bytes) := accepted (env.send k.sends) data
  (n, { k with sent := k.sent ++ bytes, sends := k.sends + 1 })

/-- The file behind a descriptor. -/
def file (k : Kernel) (fd : Int) : Option Inode := if 0 < fd then k.files fd.toNat else none

/-- What can be read from a descriptor that is open on a file. -/
def fileContent (k : Kernel) (fd : Int) : Option (List Byte) :=
  match k.file fd with
  | some (.file content) => some content
  | _ => none

/-- `sendfile(connfd, fd, NULL, count)`, on a descriptor at the beginning of its file. -/
def sendfile (env : Env) (fd : Int) (count : Nat) (k : Kernel) : Int × Kernel :=
  match k.fileContent fd with
  | some content =>
      let (n, bytes) := accepted (env.sendfile k.sendfiles) (content.take count)
      (n, { k with sent := k.sent ++ bytes, sendfiles := k.sendfiles + 1 })
  | none => (-1, { k with sendfiles := k.sendfiles + 1 })

/-- `openat(dirfd, path, O_RDONLY)`, where `path` leads to `target`. -/
def openat (dirfd : Int) (path : List Byte) (target : Option Inode) (k : Kernel) : Int × Kernel :=
  match target with
  | none => (-1, { k with opened := k.opened ++ [⟨dirfd, path, -1⟩] })
  | some inode =>
      let fd := k.nextFd + 1
      (fd, { k with
        nextFd := fd
        files := Function.update k.files fd (some inode)
        opened := k.opened ++ [⟨dirfd, path, fd⟩] })

/-- `close` -/
def close (fd : Int) (k : Kernel) : Kernel := { k with closed := k.closed ++ [fd] }

/-- What can be read depends on the files alone. -/
theorem fileContent_congr {k k' : Kernel} (h : k'.files = k.files) (fd : Int) :
    k'.fileContent fd = k.fileContent fd := by
  unfold fileContent file
  rw [h]

theorem file_of_fileContent {k : Kernel} {fd : Int} {content : List Byte}
    (h : k.fileContent fd = some content) : k.file fd = some (.file content) := by
  unfold fileContent at h
  split at h
  · next hfile =>
    rw [hfile, Option.some.inj h]
  · cases h

/-- `sendfile` adds a beginning of the file to what is on the socket. -/
theorem sent_sendfile (env : Env) (fd : Int) (count : Nat) (k : Kernel) :
    ∃ tail, (k.sendfile env fd count).2.sent = k.sent ++ tail ∧
      tail <+: (k.fileContent fd).getD [] := by
  unfold sendfile
  cases hfile : k.fileContent fd with
  | none => exact ⟨[], (List.append_nil _).symm, List.nil_prefix⟩
  | some content =>
    refine ⟨_, rfl, ?_⟩
    cases env.sendfile k.sendfiles with
    | none => exact List.nil_prefix
    | some n => exact (List.take_prefix n _).trans (List.take_prefix count content)

/-- What has just been opened is the file behind its descriptor. -/
theorem file_openat (dirfd : Int) (path : List Byte) (inode : Inode) (k : Kernel) :
    (k.openat dirfd path (some inode)).2.file (k.openat dirfd path (some inode)).1 = some inode := by
  unfold openat file
  simp only
  rw [if_pos (by omega), Int.toNat_natCast, Function.update_self]

theorem fileContent_openat (dirfd : Int) (path content : List Byte) (k : Kernel) :
    (k.openat dirfd path (some (.file content))).2.fileContent
      (k.openat dirfd path (some (.file content))).1 = some content := by
  unfold fileContent
  rw [file_openat]

theorem openat_pos (dirfd : Int) (path : List Byte) (inode : Inode) (k : Kernel) :
    0 < (k.openat dirfd path (some inode)).1 := by
  unfold openat
  simp only
  omega

theorem accepted_all {n : Nat} {data : List Byte} (h : data.length ≤ n) :
    accepted (some n) data = ((data.length : Int), data) := by
  have hmin : min (n : Int) data.length = data.length := min_eq_right (by omega)
  simp only [accepted, hmin, List.take_of_length_le h]

/-- All that is offered is put on the socket exactly when there is nothing or it has the room. -/
theorem accepted_bytes_eq_iff {room : Option Nat} {data : List Byte} :
    (accepted room data).2 = data ↔ data = [] ∨ ∃ n, room = some n ∧ data.length ≤ n := by
  cases room with
  | none => simp [accepted, eq_comm]
  | some n =>
    simp only [accepted, List.take_eq_self_iff, Option.some.injEq, exists_eq_left']
    constructor
    · exact Or.inr
    · rintro (rfl | hle)
      · exact Nat.zero_le n
      · exact hle

end Kernel

end MWebServer
