import CppServerFramework.Async.DescriptorLife

/-!
# Sockets and their descriptors

`Socket` (`socket/async_socket.cpp`) with any number of objects and fibers.  A method is a number of
steps, with those of other fibers between them: `connect` and `accept` wait in the middle, and
`close` has no lock.  What the kernel answers is part of the action, and so is the `t_hook_enable`
of the thread that a step runs on.
-/

namespace CppServerFramework.Async.FdManager

variable (m : FdManager) (fd : Nat)

/-- `get(fd, true)` on a new socket (`fdmanager.cpp:81-105`). -/
def getSocket : FdManager :=
  match (m.check fd true).1 with
  | .creates => m.create fd .ofSocket
  | .returns _ => m

/-- The object that `get(fd)` finds. -/
def find : Option FdObject := (m.entry fd).bind fun ptr => m.objects[ptr]?

/-- What the hooked `close` does with the context (`hook.cpp:372-380`).  The number is open until
    `close_f`, so that no other call has it between these steps. -/
def drop : FdManager :=
  match m.entry fd with
  | some ptr => (m.modify ptr (·.close)).del fd
  | none => m

end CppServerFramework.Async.FdManager

namespace CppServerFramework.Socket

open Async (FdManager FdObject)

/-- The members of `Socket` (`async_socket.h:93-97`); `sock` has no value where `m_sock` is `-1`. -/
structure SocketObject where
  family : Int
  type : Int
  protocol : Int := 0
  sock : Option Nat := none
  isConnected : Bool := false
  deriving DecidableEq, Repr

/-- `init` (`async_socket.cpp:23-34`) -/
def SocketObject.init (o : SocketObject) (m : FdManager) (fd : Nat) : Option SocketObject :=
  if (m.find fd).any fun ctx => ctx.ctx.isSocket && !ctx.ctx.isClosed then
    some { o with sock := some fd, isConnected := true }
  else none

/-- The method that has begun with `newSock`, if there was no socket, and the family of its
    address. -/
inductive SocketCall where
  | bind (family : Int)
  | connect (family : Int)
  deriving DecidableEq, Repr

/-- How far the method of a fiber has come. -/
inductive SocketPhase where
  | idle
  /-- in `newSock`, before `socket_f` -/
  | creating (id : Nat) (call : SocketCall)
  /-- `socket_f` has returned, `get(fd, true)` and the store in `m_sock` are to come -/
  | opened (id fd : Nat) (hook : Bool) (call : SocketCall)
  /-- the socket is there -/
  | working (id : Nat) (call : SocketCall)
  /-- in `::connect` -/
  | connecting (id : Nat)
  /-- in `::accept(m_sock, ..)`, for the new object `id` -/
  | accepting (id : Nat) (sock : Option Nat)
  /-- `accept_f` has returned, `get(fd, true)` and `init` are to come -/
  | accepted (id fd : Nat)
  /-- `close` is to come, in the destructor if the object `dies` -/
  | stopping (id : Nat) (dies : Bool)
  /-- in `::close(m_sock)` -/
  | closing (id fd : Nat) (dies : Bool)
  /-- `close_f` is to come -/
  | releasing (id fd : Nat) (dies : Bool)
  /-- `m_sock = -1` is to come -/
  | forgetting (id : Nat) (dies : Bool)
  deriving DecidableEq, Repr

/-- The object that the method is one of. -/
def SocketPhase.object : SocketPhase → Option Nat
  | .idle => none
  | .creating id _ | .opened id _ _ _ | .working id _ | .connecting id | .accepting id _
  | .accepted id _ | .stopping id _ | .closing id _ _ | .releasing id _ _ | .forgetting id _ =>
    some id

/-- `files` has the numbers that are open, each with the object that it was opened for, and
    `badCloses` counts the calls of `close_f` with a number that is not open or was opened for
    another object. -/
structure SocketWorld where
  files : Nat → Option Nat := fun _ => none
  manager : FdManager := {}
  sockets : Nat → Option SocketObject := fun _ => none
  phase : Nat → SocketPhase := fun _ => .idle
  badCloses : Nat := 0

inductive SocketAction where
  /-- fiber `t` makes an object -/
  | construct (t id : Nat) (family type protocol : Int)
  /-- fiber `t` calls `bind` or `connect` -/
  | begins (t id : Nat) (call : SocketCall)
  /-- the answer of `socket_f`; `hook` is what `socket` has found -/
  | socket (t : Nat) (hook : Bool) (answer : Option Nat)
  | store (t : Nat)
  /-- `::bind` has returned, or the family of the address is another one -/
  | bound (t : Nat)
  /-- the beginning of `::connect` -/
  | dial (t : Nat) (hook : Bool)
  | connected (t : Nat) (ok : Bool)
  /-- fiber `t` calls `accept`, which makes the object `newId` -/
  | accept (t id newId : Nat)
  | accepted (t : Nat) (answer : Option Nat)
  | init (t : Nat)
  /-- fiber `t` calls `close`, or destroys the object -/
  | close (t id : Nat) (dies : Bool)
  /-- the tests of `close` -/
  | shut (t : Nat)
  | drop (t : Nat) (hook : Bool)
  | closeFile (t : Nat)
  | forget (t : Nat)
  deriving DecidableEq, Repr

namespace SocketWorld

variable (w : SocketWorld)

def goto (t : Nat) (p : SocketPhase) : SocketWorld :=
  { w with phase := Function.update w.phase t p }

/-- The object after a step; it is gone where there is none. -/
def write (id : Nat) (o : Option SocketObject) : SocketWorld :=
  { w with sockets := Function.update w.sockets id o }

/-- `socket_f` or `accept_f` has returned `fd`. -/
def openFile (fd id : Nat) : SocketWorld :=
  { w with files := Function.update w.files fd (some id) }

/-- `close_f(fd)` -/
def closeFile (fd id : Nat) : SocketWorld :=
  { w with
    files := Function.update w.files fd none
    badCloses := if w.files fd = some id then w.badCloses else w.badCloses + 1 }

/-- `connect(fd, ..)` goes to the kernel: with the hook only if there is an open context
    (`hook.cpp:188-196`). -/
def connectable (hook : Bool) (sock : Option Nat) : Bool :=
  sock.any fun fd => !hook || (w.manager.find fd).any fun o => !o.ctx.isClosed

/-- The end of `close`. -/
def finish (t id : Nat) (dies : Bool) : SocketWorld :=
  (if dies then w.write id none else w).goto t .idle

/-- The beginning of `bind` and `connect` (`async_socket.cpp:233-238, 353-358`). -/
def begins (t id : Nat) (call : SocketCall) (o : SocketObject) : SocketWorld :=
  w.goto t (if o.sock.isNone then .creating id call else .working id call)

/-- `newSock` (`async_socket.cpp:44-58`), up to what `socket_f` answers. -/
def socket (t id : Nat) (call : SocketCall) (hook : Bool) (o : SocketObject) :
    Option Nat → Option SocketWorld
  | none => some ((w.write id (some { o with sock := none })).goto t .idle)
  | some fd =>
    if (w.files fd).isNone then some ((w.openFile fd id).goto t (.opened id fd hook call)) else none

/-- The rest of `newSock`. -/
def store (t id fd : Nat) (hook : Bool) (call : SocketCall) (o : SocketObject) : SocketWorld :=
  let manager := if hook then w.manager.getSocket fd else w.manager
  ({ w with manager }.write id (some { o with sock := some fd })).goto t (.working id call)

/-- `connect` (`async_socket.cpp:360-376`), up to where it waits. -/
def dial (t id : Nat) (hook : Bool) (family : Int) (o : SocketObject) : SocketWorld :=
  w.goto t (if family ≠ o.family then .idle
    else if w.connectable hook o.sock then .connecting id
    else .stopping id false)

/-- The rest of `connect` (`async_socket.cpp:368-387`). -/
def connected (t id : Nat) (ok : Bool) (o : SocketObject) : SocketWorld :=
  if ok then (w.write id (some { o with isConnected := true })).goto t .idle
  else w.goto t (.stopping id false)

/-- `accept` (`async_socket.cpp:268-270`) on the object `o`, up to where it waits. -/
def accept (t newId : Nat) (o : SocketObject) : SocketWorld :=
  (w.write newId (some { family := o.family, type := o.type, protocol := o.protocol })).goto t
    (.accepting newId o.sock)

/-- What `accept_f` answers (`async_socket.cpp:270-274`). -/
def accepted (t id : Nat) (sock : Option Nat) : Option Nat → Option SocketWorld
  | none => some ((w.write id none).goto t .idle)
  | some fd =>
    if sock.isSome && (w.files fd).isNone then
      some ((w.openFile fd id).goto t (.accepted id fd))
    else none

/-- The rest of `accept` (`async_socket.cpp:275-278`); the hooked `accept` calls `get(fd, true)`
    also without the hook (`hook.cpp:319-325`). -/
def initAccepted (t id fd : Nat) (o : SocketObject) : SocketWorld :=
  let manager := w.manager.getSocket fd
  ({ w with manager }.write id (o.init manager fd)).goto t .idle

/-- `close` (`async_socket.cpp:390-396`), up to `::close`. -/
def shut (t id : Nat) (dies : Bool) (o : SocketObject) : SocketWorld :=
  if !o.isConnected && o.sock.isNone then w.finish t id dies
  else
    let w := w.write id (some { o with isConnected := false })
    match o.sock with
    | some fd => w.goto t (.closing id fd dies)
    | none => w.finish t id dies

/-- `::close` (`hook.cpp:367-380`), up to `close_f`. -/
def dropCtx (t id fd : Nat) (dies hook : Bool) : SocketWorld :=
  let manager := if hook then w.manager.drop fd else w.manager
  { w with manager }.goto t (.releasing id fd dies)

/-- `m_sock = -1` -/
def forget (t id : Nat) (dies : Bool) (o : SocketObject) : SocketWorld :=
  (w.write id (some { o with sock := none })).finish t id dies

end SocketWorld

def socketMachine : Machine SocketWorld SocketAction where
  init w := w = {}
  step w
    | .construct t id family type protocol =>
      if w.phase t = .idle ∧ (w.sockets id).isNone then
        some (w.write id (some { family, type, protocol }))
      else none
    | .begins t id call =>
      if w.phase t = .idle then (w.sockets id).map (w.begins t id call) else none
    | .socket t hook answer =>
      match w.phase t with
      | .creating id call => (w.sockets id).bind fun o => w.socket t id call hook o answer
      | _ => none
    | .store t =>
      match w.phase t with
      | .opened id fd hook call => (w.sockets id).map (w.store t id fd hook call)
      | _ => none
    | .bound t =>
      match w.phase t with
      | .working _ (.bind _) => some (w.goto t .idle)
      | _ => none
    | .dial t hook =>
      match w.phase t with
      | .working id (.connect family) => (w.sockets id).map (w.dial t id hook family)
      | _ => none
    | .connected t ok =>
      match w.phase t with
      | .connecting id => (w.sockets id).map (w.connected t id ok)
      | _ => none
    | .accept t id newId =>
      if w.phase t = .idle ∧ (w.sockets newId).isNone then (w.sockets id).map (w.accept t newId)
      else none
    | .accepted t answer =>
      match w.phase t with
      | .accepting id sock => w.accepted t id sock answer
      | _ => none
    | .init t =>
      match w.phase t with
      | .accepted id fd => (w.sockets id).map (w.initAccepted t id fd)
      | _ => none
    | .close t id dies =>
      if w.phase t = .idle then (w.sockets id).map fun _ => w.goto t (.stopping id dies) else none
    | .shut t =>
      match w.phase t with
      | .stopping id dies => (w.sockets id).map (w.shut t id dies)
      | _ => none
    | .drop t hook =>
      match w.phase t with
      | .closing id fd dies => some (w.dropCtx t id fd dies hook)
      | _ => none
    | .closeFile t =>
      match w.phase t with
      | .releasing id fd dies => some ((w.closeFile fd id).goto t (.forgetting id dies))
      | _ => none
    | .forget t =>
      match w.phase t with
      | .forgetting id dies => (w.sockets id).map (w.forget t id dies)
      | _ => none

end CppServerFramework.Socket
