import ProgPowMiner.Stratum.Response

/-!
# The connection: sockets, the reactor and the buffers

The transport half of `EthStratumClient`, over every interleaving of the owner's calls, the
network (bytes split into reads in any way, operations completing or failing), the timers, and
the order in which `m_io_service` runs its queued handlers. Socket objects are numbered by the
`connect()` that made them; a dereference of a null pointer, or of `m_socket` once no shared
pointer owns its object, is recorded in `faults`. `disconnect()` stops the reactor, whose thread
leaves `run()` at its next look (`exitRun`) unless a `connect()` resets it first. The TLS
handshake is taken to succeed.

* `read_pipeline_in_order`: at most one read is outstanding, and the lines taken are the bytes
  received, cut at their newlines, each once and in order (the invariant `Link.ReadInv`).
* `next_line_carries_buffer`: bytes of an unfinished line left by one connection start the first
  line of the next.
* `disconnect_leaves_null_socket`: after `disconnect()`, a second `disconnect()` dereferences a
  null pointer, and so does `submitSolution` on a TLS connection.
-/

namespace ProgPowMiner.Stratum

/-- A line of `m_requestBuffer`, with the connection current when it was appended (ghost). -/
structure Line where
  conn : Nat
  text : String
deriving DecidableEq, Repr

/-- The pointer members `EthStratumClient` dereferences. -/
inductive Ptr
  /-- `m_socket`. -/
  | socket
  /-- `m_securesocket`. -/
  | secure
  /-- `m_nonsecuresocket`. -/
  | nonsecure
deriving DecidableEq, Repr

/-- An operation started and not complete, with the socket object it runs on. -/
inductive Op
  /-- `m_resolver.async_resolve`. -/
  | resolve
  /-- `async_connect(*m_socket, ...)`. -/
  | connect (g : Nat)
  /-- `async_write` of `m_requestBuffer`, completing in `handleResponse` (or, for the hashrate
  request, `handleHashrateResponse`); `data` is what `data()` held when it started. -/
  | write (g : Nat) (hashrate : Bool) (data : List Line)
  /-- `async_read_until(..., m_responseBuffer, "\n")`. -/
  | read (g : Nat)
deriving DecidableEq, Repr

/-- A handler queued on `m_io_service`, with the outcome of its operation (`true`: no error). -/
inductive Handler
  | resolve (ok : Bool)
  | connect (ok : Bool)
  /-- The lines the write transferred, which boost's `async_write` consumes from
  `m_requestBuffer` as the handler runs. -/
  | write (ok hashrate : Bool) (transferred : Nat)
  | read (ok : Bool)
  | workTimeout (ok : Bool)
  | responseTimeout (ok : Bool)
  | hashrate (ok : Bool)
deriving DecidableEq, Repr

/-- The thread that runs `m_io_service`. -/
inductive Service
  | notStarted
  | running
  | exited
deriving DecidableEq, Repr

/-- The members of `EthStratumClient` the transport reads and writes, the operations in flight,
the handlers queued, and the bytes waiting on each socket. -/
structure Link where
  session : Session
  /-- `m_connection.SecLevel() != SecureLevel::NONE`. -/
  tls : Bool
  socket : Option Nat
  secure : Option Nat
  nonsecure : Option Nat
  /-- The number of `connect()` calls so far, which is the number of the newest object. -/
  gen : Nat
  /-- `m_pending`. -/
  pending : Nat
  responseBuffer : List Char
  ops : List Op
  queue : List Handler
  /-- `m_hashrate_event` is waiting. -/
  hashrateTimer : Bool
  stopped : Bool
  service : Service
  /-- The bytes the pool has sent on each object and the client has not read. -/
  inbox : Nat → List Char
  /-- Every byte moved into `m_responseBuffer`, in order (ghost). -/
  received : List Char
  /-- Every line `getline` took, with the connection current then (ghost). -/
  lines : List (Nat × String)
  faults : List Ptr
  /-- `m_email`, `m_submit_hashrate_id` and `m_rate`: the constructor's, and the last rate
  `submitHashrate` was given. -/
  email : String
  hashrateId : String
  rate : String
  requestBuffer : List Line
  /-- Every line appended to `m_requestBuffer`, in order (ghost). -/
  requests : List Line
  /-- Every line a completed write put on a socket, with the socket's object (ghost). -/
  sent : List (Nat × Line)
  /-- The stale flag each unanswered submission's callback should carry, oldest first: the
  solution's, or `true` once a `mining.notify` arrived (ghost). -/
  outstanding : List Bool
  /-- Every `on_solution_accepted` or `on_solution_rejected` call: the stale flag passed, and the
  flag of the submission it answers, when one is outstanding (ghost). -/
  replies : List (Bool × Option Bool)

/-- A step of a run: a call of the client's owner, an event of the network or of a timer, or
the reactor running its `k`-th queued handler. -/
inductive LinkEvent
  | connect (tls : Bool)
  | disconnect
  | submitSolution (sol : Solution)
  | submitHashrate (rate : String)
  /-- The pool sends `bytes` on connection `g`. -/
  | arrive (g : Nat) (bytes : List Char)
  /-- The `k`-th operation in flight completes, or fails. -/
  | complete (k : Nat) (ok : Bool)
  /-- The `k`-th operation, a read, receives the next `n` bytes of its socket. -/
  | readSome (k n : Nat)
  | expireWork
  | expireResponse
  | expireHashrate
  | deliver (k : Nat)
  /-- The thread sees `stop()` and leaves `io_service::run`. -/
  | exitRun

/-- The object an operation runs on. -/
def Op.obj : Op → Option Nat
  | .resolve => none
  | .connect g => some g
  | .write g _ _ => some g
  | .read g => some g

def Op.isRead : Op → Bool
  | .read _ => true
  | _ => false

def Handler.isRead : Handler → Bool
  | .read _ => true
  | _ => false

/-- The handler of an operation that completed without error. -/
def Op.done : Op → Handler
  | .resolve => .resolve true
  | .connect _ => .connect true
  | .write _ h data => .write true h data.length
  | .read _ => .read true

/-- The handler of an operation that failed or was aborted. -/
def Op.failed : Op → Handler
  | .resolve => .resolve false
  | .connect _ => .connect false
  | .write _ h _ => .write false h 0
  | .read _ => .read false

/-- The lines an operation that completed without error wrote, with the object it wrote to. -/
def Op.written : Op → List (Nat × Line)
  | .write g _ data => data.map fun line => (g, line)
  | _ => []

/-- `std::getline` on the buffer: the characters before the first newline, and what follows the
newline. -/
def getline (b : List Char) : List Char × List Char :=
  (b.takeWhile (· ≠ '\n'), (b.dropWhile (· ≠ '\n')).drop 1)

/-- No `connect()` yet: no socket, no thread, nothing in flight, nothing requested. The
constructor's `email` and `m_submit_hashrate_id` are empty. -/
def Link.initial (s : Session) : Link :=
  ⟨s, false, none, none, none, 0, 0, [], [], [], false, false, .notStarted, fun _ => [], [], [], [],
    "", "", "", [], [], [], [], []⟩

/-- A dereference of a null or released pointer. -/
def Link.fault (l : Link) (p : Ptr) : Link := { l with faults := l.faults ++ [p] }

/-- The object `m_socket` points to, if a shared pointer still owns it. -/
def Link.socketObj (l : Link) : Option Nat :=
  l.socket.bind fun g => if l.secure = some g ∨ l.nonsecure = some g then some g else none

/-- The operation runs on object `g`. -/
def Op.on (g : Nat) (o : Op) : Bool := o.obj == some g

/-- Closing object `g`: its operations complete with `operation_aborted`. -/
def Link.close (l : Link) (g : Nat) : Link :=
  { l with
    ops := l.ops.filter fun o => !o.on g
    queue := l.queue ++ (l.ops.filter (Op.on g)).map Op.failed }

/-- `os << text` on an `std::ostream` over `m_requestBuffer`. -/
def Link.append (l : Link) (text : String) : Link :=
  { l with
    requestBuffer := l.requestBuffer ++ [⟨l.gen, text⟩]
    requests := l.requests ++ [⟨l.gen, text⟩] }

/-- boost's `async_write` consumes the `n` lines it wrote from `m_requestBuffer`. -/
def Link.consume (l : Link) (n : Nat) : Link := { l with requestBuffer := l.requestBuffer.drop n }

/-- `async_write_with_response()` (and the hashrate request's write): `async_write` on
`*m_securesocket` or `*m_nonsecuresocket` of what `m_requestBuffer` holds. -/
def Link.asyncWrite (l : Link) (hashrate : Bool) : Link :=
  match if l.tls then l.secure else l.nonsecure with
  | some g => { l with ops := l.ops ++ [.write g hashrate l.requestBuffer] }
  | none => l.fault (if l.tls then .secure else .nonsecure)

/-- `async_read_until` on object `g`: it completes at once when the buffer already holds a
newline. -/
def Link.startRead (l : Link) (g : Nat) : Link :=
  if '\n' ∈ l.responseBuffer then { l with queue := l.queue ++ [.read true] }
  else { l with ops := l.ops ++ [.read g] }

/-- `readline()`: unless a read is pending, a read on `*m_securesocket` (or `*m_socket`), and
`m_pending++`. -/
def Link.readline (l : Link) : Link :=
  if l.pending = 0 then
    match if l.tls then l.secure else l.socketObj with
    | some g => { l.startRead g with pending := l.pending + 1 }
    | none => l.fault (if l.tls then .secure else .socket)
  else l

/-- A call on `*m_securesocket` of a TLS connection (`shutdown`, `handshake`). -/
def Link.useSecure (l : Link) : Link := if l.tls ∧ l.secure = none then l.fault .secure else l

/-- `m_socket->close()`. -/
def Link.closeSocket (l : Link) : Link :=
  match l.socketObj with
  | some g => l.close g
  | none => l.fault .socket

/-- `m_io_service.stop()`, then `m_securesocket = nullptr` (TLS) or `m_socket = nullptr`. The
submissions outstanding are forgotten (ghost). -/
def Link.release (l : Link) : Link :=
  if l.tls then { l with stopped := true, secure := none, outstanding := [] }
  else { l with stopped := true, socket := none, outstanding := [] }

/-- The transport half of `disconnect()`: `shutdown` of the TLS stream, `close()`, `stop()` and
the release of the pointer. -/
def Link.teardown (l : Link) : Link := l.useSecure.closeSocket.release

/-- `disconnect()`: the session's half (`Session.disconnect`) and the transport's. -/
def Link.disconnect (l : Link) : Link := { l with session := l.session.disconnect.1 }.teardown

/-- `on_solution_accepted` or `on_solution_rejected` with the stale flag `b`; it answers the
oldest submission outstanding (ghost). -/
def Link.callback (l : Link) (b : Bool) : Link :=
  { l with replies := l.replies ++ [(b, l.outstanding.head?)], outstanding := l.outstanding.tail }

/-- What the transport does with a handler's effect: a request line, a write, a callback of the
farm, or the transport half of the `disconnect()` the handler called. -/
def Link.applyEffect (l : Link) : Effect → Link
  | .append line => l.append line
  | .write => l.asyncWrite false
  | .accepted b | .rejected b => l.callback b
  | .disconnected => l.teardown
  | _ => l

def Link.applyEffects (l : Link) (effs : List Effect) : Link := effs.foldl Link.applyEffect l

/-- The object `connect()` is about to replace (the previous one of its kind) is released: its
operations are aborted. -/
def Link.releaseOld (l : Link) (tls : Bool) : Link :=
  match if tls then l.secure else l.nonsecure with
  | some old => l.close old
  | none => l

/-- The thread is started the first time, and `m_io_service.reset()` clears `stop()` after. -/
def Link.runService (l : Link) : Link :=
  if l.service = .notStarted then { l with service := .running } else { l with stopped := false }

/-- `connect()` with the security level `tls`: a new socket object, `m_socket` on it,
`async_resolve`, and the thread. -/
def Link.connect (l : Link) (tls : Bool) : Link :=
  let l := l.releaseOld tls
  let g := l.gen + 1
  ({ l with
    gen := g, tls := tls, session := { l.session with authorized := false, connected := false }
    socket := some g, secure := if tls then some g else l.secure
    nonsecure := if tls then l.nonsecure else some g, ops := l.ops ++ [Op.resolve] } : Link).runService

/-- The worker name `connect_handler` takes from an ethproxy user: what follows the first `.`.
Without a `.`, `find_first_of` is `npos` and `npos + 1` wraps to `0`, so it is the whole user. -/
def workerOf (user : List Char) : List Char :=
  if '.' ∈ user then (user.dropWhile (· ≠ '.')).drop 1 else user

/-- The session half of `connect_handler` on success: `m_connected`, `m_linkdown`, the work
timer, and `m_authorized` (stratum dialects) or `m_worker` (ethproxy). -/
def Session.connectHandler (conn : Connection) (s : Session) : Session :=
  let s := ({ s with connected := true, linkdown := false } : Session).resetWorkTimeout
  match conn.version with
  | .ethproxy => { s with worker := String.mk (workerOf conn.user.data) }
  | _ => { s with authorized := true }

/-- `find_first_of(c)`: the index of the first `c`; `none` is `npos`. -/
def findFirstOf (s : List Char) (c : Char) : Option Nat := s.findIdx? (· == c)

/-- `substr(0, p)`: the characters before index `p`, all of them for `npos`. -/
def substrTo (s : List Char) : Option Nat → List Char
  | some p => s.take p
  | none => s

/-- `p + 1` in `size_t`: `npos + 1` wraps to `0`. -/
def sizeSucc : Option Nat → Nat
  | some p => p + 1
  | none => 0

/-- The ethproxy branch of `connect_handler`: the login name `user`, and `m_worker`. -/
def ethproxyLogin (u : List Char) : List Char × List Char :=
  let p := findFirstOf u '.'
  (substrTo u p, if sizeSucc p ≤ u.length then u.drop (sizeSucc p) else [])

/-- The `eth_submitLogin` request, with `m_email` as a second parameter when it is set. -/
def ethproxyLoginLine (worker user email : String) : String :=
  if email = "" then
    "\x7b\"id\": 1, \"worker\":\"" ++ worker ++ "\", \"method\": \"eth_submitLogin\", \"params\": [\"" ++
      user ++ "\"]\x7d\n"
  else
    "\x7b\"id\": 1, \"worker\":\"" ++ worker ++ "\", \"method\": \"eth_submitLogin\", \"params\": [\"" ++
      user ++ "\", \"" ++ email ++ "\"]\x7d\n"

/-- The line `connect_handler` appends to `m_requestBuffer`, by dialect (`version` is the build's
`project_version`). -/
def connectLine (conn : Connection) (email version : String) : String :=
  match conn.version with
  | .stratum => "\x7b\"id\": 1, \"method\": \"mining.subscribe\", \"params\": []\x7d\n"
  | .ethproxy =>
    ethproxyLoginLine (String.mk (ethproxyLogin conn.user.data).2)
      (String.mk (ethproxyLogin conn.user.data).1) email
  | .ethereumStratum =>
    "\x7b\"id\": 1, \"method\": \"mining.subscribe\", \"params\": [\"ethminer/" ++ version ++
      "\",\"EthereumStratum/1.0.0\"]\x7d\n"

/-- The `eth_submitHashrate` request of `hashrate_event_handler`. -/
def hashrateLine (rate hashrateId : String) : String :=
  "\x7b\"id\": 6, \"jsonrpc\":\"2.0\", \"method\": \"eth_submitHashrate\", \"params\": [\"" ++ rate ++
    "\",\"0x" ++ hashrateId ++ "\"]\x7d\n"

/-- The message `readResponse` hands to `processReponse`: a braced line the reader parses. -/
def readMessage (parse : String → Option Json) (line : String) : Option Json :=
  if line ≠ "" ∧ line.front = '{' ∧ line.back = '}' then parse line else none

/-- The message is a `mining.notify` with its parameters: an `id` other than 1 to 4, the method
`mining.notify` (any unsolicited result on ethproxy), and an array of parameters. -/
def Json.isNotify (conn : Connection) (o : Json) : Bool :=
  match (o.getKey "id" .null).asInt with
  | .ok n =>
    n ∉ [1, 2, 3, 4] &&
    (conn.version == .ethproxy ||
      match (o.getKey "method" (.str "")).asString with
      | .ok m => m == "mining.notify"
      | .error _ => false) &&
    (o.getKey (if conn.version = .ethproxy then "result" else "params") .null).isArray
  | .error _ => false

variable (conn : Connection) (toEpoch : Nat → Except Throw Int) (version : String)
  (parse : String → Option Json) (submitHashrate : Bool)

/-- The submissions outstanding once `line` arrived: a `mining.notify` marks them all stale
(ghost). -/
def Link.markStale (l : Link) (line : String) : List Bool :=
  if (readMessage parse line).any (Json.isNotify conn) then l.outstanding.map fun _ => true
  else l.outstanding

/-- The rest of `readResponse` once `getline` took `line`: `processReponse` on it, then
`readline()` while connected. An exception leaves `io_service::run`, and the thread with it. -/
def Link.afterLine (l : Link) (line : String) : Link :=
  match l.session.readResponse conn toEpoch version parse line with
  | .ok (s, effs) =>
    let l := ({ l with session := s, outstanding := l.markStale conn parse line } : Link).applyEffects
      effs
    if l.session.connected then l.readline else l
  | .error _ => { l with service := .exited }

/-- The handlers. -/
def Link.handle (l : Link) : Handler → Link
  | .resolve true =>
    match l.socketObj with
    | some g => { l with ops := l.ops ++ [.connect g] }
    | none => l.fault .socket
  | .resolve false => l.disconnect
  | .connect true =>
    (({ l with session := l.session.connectHandler conn } : Link).useSecure.append
      (connectLine conn l.email version)).asyncWrite false
  | .connect false => l.disconnect
  | .write true false n => (l.consume n).readline
  | .write _ _ n => l.consume n
  | .read true =>
    ({ l with
      pending := l.pending - 1, responseBuffer := (getline l.responseBuffer).2
      lines := l.lines ++ [(l.gen, String.mk (getline l.responseBuffer).1)] } : Link).afterLine
      conn toEpoch version parse (String.mk (getline l.responseBuffer).1)
  | .read false =>
    let l := { l with pending := l.pending - 1 }
    if l.session.connected then l.disconnect else l
  | .workTimeout true => l.disconnect
  | .responseTimeout true => l.disconnect
  | .hashrate true =>
    if l.session.linkdown then l else (l.append (hashrateLine l.rate l.hashrateId)).asyncWrite true
  | .workTimeout false | .responseTimeout false | .hashrate false => l

/-- One step of a run. -/
def Link.step (l : Link) : LinkEvent → Link
  | .connect tls => l.connect tls
  | .disconnect => l.disconnect
  | .submitSolution sol =>
    match l.session.submitSolution conn sol with
    | .ok (s, effs) =>
      ({ l with session := s, outstanding := l.outstanding ++ [sol.stale] } : Link).applyEffects effs
    | .error _ => l
  | .submitHashrate rate =>
    if submitHashrate ∧ l.session.linkdown = false then { l with rate := rate, hashrateTimer := true }
    else l
  | .arrive g bytes => { l with inbox := Function.update l.inbox g (l.inbox g ++ bytes) }
  | .complete k ok =>
    match l.ops[k]? with
    | some op =>
      if op.isRead ∧ ok then l
      else
        { l with
          ops := l.ops.eraseIdx k, queue := l.queue ++ [if ok then op.done else op.failed]
          sent := l.sent ++ if ok then op.written else [] }
    | none => l
  | .readSome k n =>
    match l.ops[k]? with
    | some (.read g) =>
      let l := { l with
        inbox := Function.update l.inbox g ((l.inbox g).drop n)
        responseBuffer := l.responseBuffer ++ (l.inbox g).take n
        received := l.received ++ (l.inbox g).take n }
      if '\n' ∈ l.responseBuffer then
        { l with ops := l.ops.eraseIdx k, queue := l.queue ++ [.read true] }
      else l
    | _ => l
  | .expireWork =>
    if l.session.workTimer then
      { l with session := { l.session with workTimer := false }, queue := l.queue ++ [.workTimeout true] }
    else l
  | .expireResponse =>
    if l.session.responseTimer then
      { l with
        session := { l.session with responseTimer := false }
        queue := l.queue ++ [.responseTimeout true] }
    else l
  | .expireHashrate =>
    if l.hashrateTimer then { l with hashrateTimer := false, queue := l.queue ++ [.hashrate true] }
    else l
  | .deliver k =>
    if l.service = .running ∧ l.stopped = false then
      match l.queue[k]? with
      | some h => ({ l with queue := l.queue.eraseIdx k } : Link).handle conn toEpoch version parse h
      | none => l
    else l
  | .exitRun => if l.service = .running ∧ l.stopped then { l with service := .exited } else l

def Link.run (l : Link) (es : List LinkEvent) : Link :=
  es.foldl (Link.step conn toEpoch version parse submitHashrate) l

/-! ## The read pipeline -/

/-- The reads outstanding: in flight, or complete with their handler queued. -/
def Link.reads (l : Link) : Nat := l.ops.countP Op.isRead + l.queue.countP Handler.isRead

/-- The bytes `getline` has taken: each line, then its newline. -/
def taken (lines : List (Nat × String)) : List Char :=
  (lines.map fun p => p.2.data ++ ['\n']).flatten

@[simp] theorem taken_nil : taken [] = [] := rfl

@[simp] theorem taken_append (a b : List (Nat × String)) : taken (a ++ b) = taken a ++ taken b := by
  simp [taken]

@[simp] theorem taken_cons (p : Nat × String) (ps : List (Nat × String)) :
    taken (p :: ps) = p.2.data ++ '\n' :: taken ps := by
  simp [taken]

/-- The read pipeline's invariant: `m_pending` counts the reads outstanding and there is at most
one; a read queued as complete has its newline in the buffer; the lines taken, each with its
newline, then the buffer, are exactly the bytes received, and no line holds a newline. -/
structure Link.ReadInv (l : Link) : Prop where
  pending : l.pending = l.reads
  atMostOne : l.reads ≤ 1
  ready : Handler.read true ∈ l.queue → '\n' ∈ l.responseBuffer
  consumed : taken l.lines ++ l.responseBuffer = l.received
  lines : ∀ p ∈ l.lines, '\n' ∉ p.2.data

theorem Link.ReadInv.of_idle {l : Link} (hp : l.pending = 0) (hr : l.reads = 0)
    (hc : taken l.lines ++ l.responseBuffer = l.received) (hl : ∀ p ∈ l.lines, '\n' ∉ p.2.data) :
    l.ReadInv where
  pending := hp.trans hr.symm
  atMostOne := by omega
  ready h := by
    have hq : l.queue.countP Handler.isRead = 0 := by unfold Link.reads at hr; omega
    exact absurd rfl (List.countP_eq_zero.mp hq _ h)
  consumed := hc
  lines := hl

theorem Link.initial_readInv (s : Session) : (Link.initial s).ReadInv :=
  .of_idle rfl rfl rfl (by simp [Link.initial])

theorem getline_spec : ∀ {b : List Char}, '\n' ∈ b →
    (getline b).1 ++ '\n' :: (getline b).2 = b ∧ '\n' ∉ (getline b).1
  | c :: b, h => by
    by_cases hc : c = '\n'
    · subst hc; simp [getline]
    · have ih := getline_spec ((List.mem_cons.mp h).resolve_left (Ne.symm hc))
      simp only [getline, List.takeWhile_cons, List.dropWhile_cons, ne_eq, hc, not_false_eq_true,
        decide_True, if_true, List.cons_append, List.mem_cons, false_or] at ih ⊢
      exact ⟨by rw [ih.1], by rintro (h | h) <;> [exact hc h.symm; exact ih.2 h]⟩

theorem countP_eraseIdx {α : Type} (p : α → Bool) :
    ∀ {xs : List α} {k : Nat} {a : α}, xs[k]? = some a →
      (xs.eraseIdx k).countP p + (if p a then 1 else 0) = xs.countP p
  | [], _, _, h => by simp at h
  | x :: xs, 0, a, h => by
    simp only [List.getElem?_cons_zero, Option.some.injEq] at h
    subst h; simp [List.countP_cons]
  | x :: xs, k + 1, a, h => by
    simp only [List.getElem?_cons_succ] at h
    simp only [List.eraseIdx_cons_succ, List.countP_cons, ← countP_eraseIdx p h]
    omega

/-- `l'` has the read pipeline of `l`: the same count, buffer and ghosts, and no new completed
read. -/
structure Link.SameReads (l l' : Link) : Prop where
  pending : l'.pending = l.pending
  reads : l'.reads = l.reads
  ready : Handler.read true ∈ l'.queue → Handler.read true ∈ l.queue
  responseBuffer : l'.responseBuffer = l.responseBuffer
  received : l'.received = l.received
  lines : l'.lines = l.lines

theorem Link.SameReads.refl (l : Link) : l.SameReads l := ⟨rfl, rfl, id, rfl, rfl, rfl⟩

theorem Link.SameReads.trans {l₁ l₂ l₃ : Link} (h₁ : l₁.SameReads l₂) (h₂ : l₂.SameReads l₃) :
    l₁.SameReads l₃ :=
  ⟨h₂.pending.trans h₁.pending, h₂.reads.trans h₁.reads, h₁.ready ∘ h₂.ready,
    h₂.responseBuffer.trans h₁.responseBuffer, h₂.received.trans h₁.received, h₂.lines.trans h₁.lines⟩

theorem Link.ReadInv.of_same {l l' : Link} (h : l.ReadInv) (h' : l.SameReads l') : l'.ReadInv where
  pending := by rw [h'.pending, h'.reads]; exact h.pending
  atMostOne := h'.reads ▸ h.atMostOne
  ready hr := h'.responseBuffer ▸ h.ready (h'.ready hr)
  consumed := by rw [h'.lines, h'.responseBuffer, h'.received]; exact h.consumed
  lines := h'.lines ▸ h.lines

theorem Link.sameReads_of_add {l l' : Link} (ho : ∃ o, l'.ops = l.ops ++ o ∧ o.countP Op.isRead = 0)
    (hq : ∃ q, l'.queue = l.queue ++ q ∧ Handler.read true ∉ q ∧ q.countP Handler.isRead = 0)
    (hp : l'.pending = l.pending) (hb : l'.responseBuffer = l.responseBuffer)
    (hr : l'.received = l.received) (hl : l'.lines = l.lines) : l.SameReads l' := by
  obtain ⟨o, ho, ho0⟩ := ho
  obtain ⟨q, hq, hqr, hq0⟩ := hq
  refine ⟨hp, ?_, fun h => ?_, hb, hr, hl⟩
  · simp [Link.reads, ho, hq, List.countP_append, ho0, hq0]
  · rw [hq, List.mem_append] at h
    exact h.resolve_right hqr

theorem Link.sameReads_fault (l : Link) (p : Ptr) : l.SameReads (l.fault p) :=
  ⟨rfl, rfl, id, rfl, rfl, rfl⟩

theorem Link.sameReads_close (l : Link) (g : Nat) : l.SameReads (l.close g) where
  pending := rfl
  reads := by
    have hf : Handler.isRead ∘ Op.failed = Op.isRead := by funext o; cases o <;> rfl
    simp only [Link.reads, Link.close, List.countP_append, List.countP_map, hf]
    rw [List.countP_eq_countP_filter_add l.ops Op.isRead (Op.on g)]
    omega
  ready h := by
    simp only [Link.close, List.mem_append, List.mem_map] at h
    rcases h with h | ⟨o, -, ho⟩
    · exact h
    · cases o <;> simp [Op.failed] at ho
  responseBuffer := rfl
  received := rfl
  lines := rfl

theorem Link.sameReads_asyncWrite (l : Link) (b : Bool) : l.SameReads (l.asyncWrite b) := by
  unfold Link.asyncWrite
  split
  · exact sameReads_of_add ⟨_, rfl, rfl⟩ ⟨[], (List.append_nil _).symm, by simp, rfl⟩ rfl rfl rfl rfl
  · exact sameReads_fault _ _

theorem Link.sameReads_append (l : Link) (text : String) : l.SameReads (l.append text) :=
  ⟨rfl, rfl, id, rfl, rfl, rfl⟩

theorem Link.sameReads_consume (l : Link) (n : Nat) : l.SameReads (l.consume n) :=
  ⟨rfl, rfl, id, rfl, rfl, rfl⟩

theorem Link.sameReads_useSecure (l : Link) : l.SameReads l.useSecure := by
  unfold Link.useSecure; split
  · exact sameReads_fault _ _
  · exact .refl l

theorem Link.sameReads_session (l : Link) (s : Session) : l.SameReads { l with session := s } :=
  ⟨rfl, rfl, id, rfl, rfl, rfl⟩

theorem Link.sameReads_reply (l : Link) (s : Session) (o : List Bool) :
    l.SameReads { l with session := s, outstanding := o } :=
  ⟨rfl, rfl, id, rfl, rfl, rfl⟩

theorem Link.sameReads_eraseIdx (l : Link) {k : Nat} {hd : Handler} (hk : l.queue[k]? = some hd)
    (hr : hd.isRead = false) : l.SameReads { l with queue := l.queue.eraseIdx k } where
  pending := rfl
  reads := by
    have he := countP_eraseIdx Handler.isRead hk
    simp only [hr, Bool.false_eq_true, if_false, add_zero] at he
    simp only [Link.reads, he]
  ready h := List.mem_of_mem_eraseIdx h
  responseBuffer := rfl
  received := rfl
  lines := rfl

theorem Link.sameReads_teardown (l : Link) : l.SameReads l.teardown := by
  have h₁ := l.sameReads_useSecure
  have h₂ : l.useSecure.SameReads l.useSecure.closeSocket := by
    unfold Link.closeSocket; split
    · exact sameReads_close _ _
    · exact sameReads_fault _ _
  have h₃ : ∀ l' : Link, l'.SameReads l'.release := fun l' => by
    unfold Link.release; split <;> exact ⟨rfl, rfl, id, rfl, rfl, rfl⟩
  exact (h₁.trans h₂).trans (h₃ _)

theorem Link.sameReads_disconnect (l : Link) : l.SameReads l.disconnect :=
  (⟨rfl, rfl, id, rfl, rfl, rfl⟩ : l.SameReads { l with session := l.session.disconnect.1 }).trans
    (sameReads_teardown _)

theorem Link.sameReads_applyEffects (l : Link) (effs : List Effect) :
    l.SameReads (l.applyEffects effs) := by
  induction effs generalizing l with
  | nil => exact .refl l
  | cons e effs ih =>
    refine SameReads.trans ?_ (ih (l.applyEffect e))
    cases e with
    | append line => exact sameReads_append l line
    | write => exact sameReads_asyncWrite l false
    | accepted b | rejected b => exact ⟨rfl, rfl, id, rfl, rfl, rfl⟩
    | disconnected => exact sameReads_teardown l
    | _ => exact .refl l

theorem Link.sameReads_connect (l : Link) (tls : Bool) : l.SameReads (l.connect tls) := by
  have h₁ : l.SameReads (l.releaseOld tls) := by
    unfold Link.releaseOld; split
    · exact sameReads_close _ _
    · exact .refl l
  have h₃ : ∀ l' : Link, l'.SameReads l'.runService := fun l' => by
    unfold Link.runService; split <;> exact ⟨rfl, rfl, id, rfl, rfl, rfl⟩
  refine h₁.trans (SameReads.trans ?_ (h₃ _))
  exact sameReads_of_add ⟨[Op.resolve], rfl, rfl⟩ ⟨[], (List.append_nil _).symm, by simp, rfl⟩
    rfl rfl rfl rfl

/-- A step keeps the invariant of the read pipeline, and `received` only grows. -/
def Link.Preserves (l l' : Link) : Prop := (l.ReadInv → l'.ReadInv) ∧ l.received <+: l'.received

theorem Link.Preserves.trans {l₁ l₂ l₃ : Link} (h₁ : l₁.Preserves l₂) (h₂ : l₂.Preserves l₃) :
    l₁.Preserves l₃ :=
  ⟨h₂.1 ∘ h₁.1, h₁.2.trans h₂.2⟩

theorem Link.SameReads.preserves {l l' : Link} (h : l.SameReads l') : l.Preserves l' :=
  ⟨fun hi => hi.of_same h, by rw [h.received]⟩

theorem Link.ReadInv.readline {l : Link} (h : l.ReadInv) : l.readline.ReadInv := by
  unfold Link.readline
  split
  · rename_i h0
    have hr : l.ops.countP Op.isRead + l.queue.countP Handler.isRead = 0 := by
      rw [← h0, h.pending]; rfl
    split
    · unfold Link.startRead
      split
      · rename_i hn
        refine ⟨?_, ?_, fun _ => hn, h.consumed, h.lines⟩ <;>
          simp only [Link.reads, List.countP_append, List.countP_cons, List.countP_nil,
            Handler.isRead, if_true] <;> omega
      · refine ⟨?_, ?_, h.ready, h.consumed, h.lines⟩ <;>
          simp only [Link.reads, List.countP_append, List.countP_cons, List.countP_nil,
            Op.isRead, if_true] <;> omega
    · exact h.of_same (sameReads_fault _ _)
  · exact h

theorem Link.preserves_readline (l : Link) : l.Preserves l.readline := by
  refine ⟨ReadInv.readline, ?_⟩
  unfold Link.readline
  split
  · split
    · unfold Link.startRead; split <;> exact List.prefix_refl _
    · exact List.prefix_refl _
  · exact List.prefix_refl _

theorem Link.ReadInv.take_read {l : Link} (h : l.ReadInv) {k : Nat} {ok : Bool}
    (hk : l.queue[k]? = some (.read ok)) :
    l.pending = 1 ∧ l.ops.countP Op.isRead = 0 ∧ (l.queue.eraseIdx k).countP Handler.isRead = 0 := by
  have he := countP_eraseIdx Handler.isRead hk
  have hp := h.pending
  have h1 := h.atMostOne
  simp only [Handler.isRead, if_true] at he
  unfold Link.reads at hp h1
  omega

theorem Link.preserves_afterLine (l : Link) (line : String) :
    l.Preserves (l.afterLine conn toEpoch version parse line) := by
  unfold Link.afterLine
  split
  · rename_i s effs _
    refine ((sameReads_reply l s (l.markStale conn parse line)).trans
      (sameReads_applyEffects _ effs)).preserves.trans ?_
    dsimp only
    split
    · exact preserves_readline _
    · exact (SameReads.refl _).preserves
  · exact SameReads.preserves ⟨rfl, rfl, id, rfl, rfl, rfl⟩

theorem Link.preserves_read_true (l : Link) {k : Nat} (hk : l.queue[k]? = some (.read true)) :
    l.Preserves (({ l with queue := l.queue.eraseIdx k } : Link).handle conn toEpoch version parse
      (.read true)) := by
  have h₁ : l.Preserves { l with
      queue := l.queue.eraseIdx k, pending := l.pending - 1
      responseBuffer := (getline l.responseBuffer).2
      lines := l.lines ++ [(l.gen, String.mk (getline l.responseBuffer).1)] } := by
    refine ⟨fun h => ?_, List.prefix_refl _⟩
    obtain ⟨hp, hops, hq⟩ := h.take_read hk
    obtain ⟨hsplit, hline⟩ := getline_spec (h.ready (List.getElem?_mem hk))
    refine .of_idle (by simp [hp]) (by simp [Link.reads, hops, hq]) ?_ ?_
    · simp only [taken_append, taken_cons, taken_nil, List.append_assoc, List.cons_append,
        List.nil_append, hsplit]
      exact h.consumed
    · simp only [List.mem_append, List.mem_singleton]
      rintro p (hp | rfl)
      · exact h.lines p hp
      · exact hline
  exact h₁.trans (preserves_afterLine _ _ _ _ _ _)

theorem Link.preserves_read_false (l : Link) {k : Nat} (hk : l.queue[k]? = some (.read false)) :
    l.Preserves (({ l with queue := l.queue.eraseIdx k } : Link).handle conn toEpoch version parse
      (.read false)) := by
  have h₁ : l.Preserves { l with queue := l.queue.eraseIdx k, pending := l.pending - 1 } := by
    refine ⟨fun h => ?_, List.prefix_refl _⟩
    obtain ⟨hp, hops, hq⟩ := h.take_read hk
    exact .of_idle (by simp [hp]) (by simp [Link.reads, hops, hq]) h.consumed h.lines
  refine h₁.trans ?_
  show Link.Preserves _ (if _ then _ else _)
  split
  · exact (sameReads_disconnect _).preserves
  · exact (SameReads.refl _).preserves

theorem Link.preserves_handle_other (l : Link) :
    ∀ hd : Handler, hd.isRead = false → l.Preserves (l.handle conn toEpoch version parse hd)
  | .resolve true, _ => by
    dsimp only [Link.handle]
    split
    · exact SameReads.preserves (sameReads_of_add ⟨[.connect _], rfl, rfl⟩
        ⟨[], (List.append_nil _).symm, by simp, rfl⟩ rfl rfl rfl rfl)
    · exact (sameReads_fault _ _).preserves
  | .resolve false, _ | .connect false, _ | .workTimeout true, _ | .responseTimeout true, _ =>
    (sameReads_disconnect l).preserves
  | .connect true, _ =>
    ((sameReads_session _ _).trans ((sameReads_useSecure _).trans
      ((sameReads_append _ _).trans (sameReads_asyncWrite _ false)))).preserves
  | .write true false n, _ => (sameReads_consume l n).preserves.trans (preserves_readline _)
  | .write true true n, _ | .write false _ n, _ => (sameReads_consume l n).preserves
  | .workTimeout false, _ | .responseTimeout false, _ | .hashrate false, _ =>
    (SameReads.refl l).preserves
  | .hashrate true, _ => by
    dsimp only [Link.handle]
    split
    · exact (SameReads.refl l).preserves
    · exact ((sameReads_append _ _).trans (sameReads_asyncWrite _ true)).preserves

theorem Link.preserves_deliver (l : Link) {k : Nat} {hd : Handler} (hk : l.queue[k]? = some hd) :
    l.Preserves (({ l with queue := l.queue.eraseIdx k } : Link).handle conn toEpoch version parse hd) := by
  cases hr : hd.isRead
  · exact (l.sameReads_eraseIdx hk hr).preserves.trans (preserves_handle_other _ _ _ _ _ hd hr)
  · cases hd <;> simp only [Handler.isRead, Bool.false_eq_true] at hr
    rename_i ok
    cases ok
    · exact preserves_read_false _ _ _ _ _ hk
    · exact preserves_read_true _ _ _ _ _ hk

theorem Link.sameReads_enqueue (l : Link) (hd : Handler) (hr : hd.isRead = false) :
    l.SameReads { l with queue := l.queue ++ [hd] } :=
  sameReads_of_add ⟨[], (List.append_nil _).symm, rfl⟩
    ⟨[hd], rfl, fun h => by rw [List.mem_singleton] at h; subst h; simp [Handler.isRead] at hr,
      by simp [hr]⟩ rfl rfl rfl rfl

/-- Every step keeps the invariant of the read pipeline. -/
theorem Link.preserves_step (l : Link) (e : LinkEvent) :
    l.Preserves (l.step conn toEpoch version parse submitHashrate e) := by
  cases e with
  | connect tls => exact (sameReads_connect l tls).preserves
  | disconnect => exact (sameReads_disconnect l).preserves
  | submitSolution sol =>
    dsimp only [Link.step]
    split
    · exact ((sameReads_reply _ _ _).trans (sameReads_applyEffects _ _)).preserves
    · exact (SameReads.refl l).preserves
  | submitHashrate _ | exitRun =>
    dsimp only [Link.step]
    split <;> exact SameReads.preserves ⟨rfl, rfl, id, rfl, rfl, rfl⟩
  | arrive g bytes => exact SameReads.preserves ⟨rfl, rfl, id, rfl, rfl, rfl⟩
  | complete k ok =>
    dsimp only [Link.step]
    split
    · rename_i op hk
      split
      · exact (SameReads.refl l).preserves
      · rename_i hnot
        have hd : (if ok then op.done else op.failed).isRead = op.isRead := by
          cases ok <;> cases op <;> rfl
        refine SameReads.preserves ⟨rfl, ?_, fun h => ?_, rfl, rfl, rfl⟩
        · have he := countP_eraseIdx Op.isRead hk
          simp only [Link.reads, List.countP_append, List.countP_cons, List.countP_nil, hd]
          omega
        · rcases List.mem_append.mp h with h | h
          · exact h
          · exact absurd (by cases ok <;> cases op <;> simp_all [Op.done, Op.failed, Op.isRead]) hnot
    · exact (SameReads.refl l).preserves
  | readSome k n =>
    dsimp only [Link.step]
    split
    · rename_i g hk
      refine ⟨fun h => ?_, by split <;> exact List.prefix_append _ _⟩
      have hc := h.consumed
      split
      · rename_i hn
        have he := countP_eraseIdx Op.isRead hk
        have hp := h.pending
        have h1 := h.atMostOne
        simp only [Op.isRead, if_true] at he
        unfold Link.reads at hp h1
        refine ⟨?_, ?_, fun _ => hn, by simp [← hc], h.lines⟩ <;>
          simp only [Link.reads, List.countP_append, List.countP_cons, List.countP_nil,
            Handler.isRead, if_true] <;> omega
      · exact ⟨h.pending, h.atMostOne, fun hq => List.mem_append_left _ (h.ready hq),
          by simp [← hc], h.lines⟩
    · exact (SameReads.refl l).preserves
  | expireWork | expireResponse | expireHashrate =>
    dsimp only [Link.step]
    split
    · exact SameReads.preserves ((sameReads_enqueue l _ (by rfl)).trans ⟨rfl, rfl, id, rfl, rfl, rfl⟩)
    · exact (SameReads.refl l).preserves
  | deliver k =>
    dsimp only [Link.step]
    split
    · split
      · rename_i hd hk
        exact preserves_deliver _ _ _ _ l hk
      · exact (SameReads.refl l).preserves
    · exact (SameReads.refl l).preserves

theorem Link.preserves_run (l : Link) (es : List LinkEvent) :
    l.Preserves (l.run conn toEpoch version parse submitHashrate es) := by
  induction es generalizing l with
  | nil => exact ⟨id, List.prefix_refl _⟩
  | cons e es ih => exact (l.preserves_step _ _ _ _ _ e).trans (ih _)

theorem Link.readInv_run (s : Session) (es : List LinkEvent) :
    ((Link.initial s).run conn toEpoch version parse submitHashrate es).ReadInv :=
  ((Link.initial s).preserves_run _ _ _ _ _ es).1 (Link.initial_readInv s)

/-- Over every run, every split of the bytes into reads and every order of the handlers: at most
one read is outstanding and `m_pending` counts it, and the lines `getline` took, each with its
newline, then what is left in the buffer, are the bytes read, in order. -/
theorem read_pipeline_in_order (s : Session) (es : List LinkEvent) :
    ((Link.initial s).run conn toEpoch version parse submitHashrate es).pending =
      ((Link.initial s).run conn toEpoch version parse submitHashrate es).reads ∧
    ((Link.initial s).run conn toEpoch version parse submitHashrate es).reads ≤ 1 ∧
    taken ((Link.initial s).run conn toEpoch version parse submitHashrate es).lines ++
        ((Link.initial s).run conn toEpoch version parse submitHashrate es).responseBuffer =
      ((Link.initial s).run conn toEpoch version parse submitHashrate es).received :=
  let h := Link.readInv_run conn toEpoch version parse submitHashrate s es
  ⟨h.pending, h.atMostOne, h.consumed⟩

theorem line_of_append {a b t x : List Char} (ha : '\n' ∉ a) (hb : '\n' ∉ b)
    (h : a ++ '\n' :: x = b ++ t) : a = b ++ t.takeWhile (· ≠ '\n') := by
  have hp : ∀ {l : List Char}, '\n' ∉ l → ∀ c ∈ l, decide (c ≠ '\n') = true :=
    fun hl c hc => decide_eq_true (by rintro rfl; exact hl hc)
  have h₁ := congrArg (List.takeWhile (· ≠ '\n')) h
  rwa [List.takeWhile_append_of_pos (hp ha), List.takeWhile_append_of_pos (hp hb),
    List.takeWhile_cons_of_neg (by simp), List.append_nil] at h₁

/-- `m_responseBuffer` belongs to the client, not to a connection: once it holds bytes `b` without
a newline, the next line `getline` takes, after any events (a `disconnect()` and a new
`connect()` among them), is `b` followed by the bytes read next, up to their first newline. -/
theorem next_line_carries_buffer (s : Session) (es es' : List LinkEvent) {g : Nat} {line : String}
    {rest : List (Nat × String)}
    (hb : '\n' ∉ ((Link.initial s).run conn toEpoch version parse submitHashrate es).responseBuffer)
    (hnew : (((Link.initial s).run conn toEpoch version parse submitHashrate es).run conn toEpoch
        version parse submitHashrate es').lines =
      ((Link.initial s).run conn toEpoch version parse submitHashrate es).lines ++ (g, line) :: rest) :
    line.data = ((Link.initial s).run conn toEpoch version parse submitHashrate es).responseBuffer ++
      ((((Link.initial s).run conn toEpoch version parse submitHashrate es).run conn toEpoch version
          parse submitHashrate es').received.drop
        ((Link.initial s).run conn toEpoch version parse submitHashrate es).received.length).takeWhile
        (· ≠ '\n') := by
  set l₀ := (Link.initial s).run conn toEpoch version parse submitHashrate es
  set l₁ := l₀.run conn toEpoch version parse submitHashrate es'
  have i₀ : l₀.ReadInv := Link.readInv_run conn toEpoch version parse submitHashrate s es
  obtain ⟨i₁, t, ht⟩ := l₀.preserves_run conn toEpoch version parse submitHashrate es'
  have c₁ := (i₁ i₀).consumed
  rw [hnew, ← ht, ← i₀.consumed] at c₁
  simp only [taken_append, taken_cons, List.append_assoc, List.cons_append] at c₁
  rw [← ht, List.drop_left]
  exact line_of_append ((i₁ i₀).lines (g, line) (by rw [hnew]; simp)) hb (List.append_cancel_left c₁)

/-- The pool resets connection 1 after the first bytes of a line, `{"id":`; the owner's
`onDisconnected` reconnects before the thread leaves `run()`, and the first line of connection 2
reaches the parser behind those bytes. -/
theorem next_line_carries_buffer_reconnect :
    ∃ l₀ l₁ : Link,
      l₀ = (Link.initial ⟨false, false, true, false, false, 1, 0, 0, WorkPackage.empty, "", false, false⟩).run
        ⟨.stratum, "miner", "x"⟩ (fun _ => .ok 0) "" (fun _ => none) false
        [.connect false, .complete 0 true, .deliver 0, .complete 0 true, .deliver 0, .complete 0 true,
          .deliver 0, .arrive 1 "\x7b\"id\":".data, .readSome 0 6, .complete 0 false, .deliver 0] ∧
      l₁ = l₀.run ⟨.stratum, "miner", "x"⟩ (fun _ => .ok 0) "" (fun _ => none) false
        [.connect false, .complete 0 true, .deliver 0, .complete 0 true, .deliver 0, .complete 0 true,
          .deliver 0, .arrive 2 "\x7b\"id\":1,\"result\":true,\"error\":null\x7d\n".data,
          .readSome 0 64, .deliver 0] ∧
      '\n' ∉ l₀.responseBuffer ∧
      l₁.lines = l₀.lines ++ [(2, "\x7b\"id\":\x7b\"id\":1,\"result\":true,\"error\":null\x7d")] ∧
      "\x7b\"id\":\x7b\"id\":1,\"result\":true,\"error\":null\x7d".data =
        l₀.responseBuffer ++ (l₁.received.drop l₀.received.length).takeWhile (· ≠ '\n') :=
  ⟨_, _, rfl, rfl, by decide, by decide,
    @next_line_carries_buffer _ _ _ _ _ _ _ _ 2 _ [] (by decide) (by decide)⟩

/-! ## The pointers after `disconnect()` -/

theorem Link.teardown_spec (l : Link) :
    l.teardown.tls = l.tls ∧
    (l.tls = true → l.teardown.secure = none) ∧ (l.tls = false → l.teardown.socket = none) ∧
    l.teardown.faults = l.faults ++ (if l.tls ∧ l.secure = none then [.secure] else []) ++
      (if l.socketObj = none then [.socket] else []) := by
  have hu : l.useSecure.faults = l.faults ++ (if l.tls ∧ l.secure = none then [.secure] else []) ∧
      l.useSecure.socketObj = l.socketObj ∧ l.useSecure.tls = l.tls := by
    unfold Link.useSecure
    split <;> rename_i hc <;> exact ⟨by simp [Link.fault, hc], rfl, rfl⟩
  have hc : ∀ l' : Link, l'.closeSocket.faults = l'.faults ++
      (if l'.socketObj = none then [.socket] else []) ∧ l'.closeSocket.tls = l'.tls := fun l' => by
    unfold Link.closeSocket
    split <;> rename_i heq <;> exact ⟨by simp [Link.close, Link.fault, heq], rfl⟩
  obtain ⟨hc₁, hc₂⟩ := hc l.useSecure
  unfold Link.teardown Link.release
  split <;> simp_all

theorem Link.disconnect_spec (l : Link) :
    l.disconnect.tls = l.tls ∧
    (l.tls = true → l.disconnect.secure = none) ∧ (l.tls = false → l.disconnect.socket = none) ∧
    l.disconnect.faults = l.faults ++ (if l.tls ∧ l.secure = none then [.secure] else []) ++
      (if l.socketObj = none then [.socket] else []) :=
  teardown_spec { l with session := l.session.disconnect.1 }

/-- Nothing in `EthStratumClient` reopens the socket between `disconnect()` and the next
`connect()`: a second `disconnect()` shuts down the null `m_securesocket` (TLS) or closes the null
`m_socket`, and on a TLS connection `submitSolution` writes through the null `m_securesocket`. -/
theorem disconnect_leaves_null_socket (l : Link) (sol : Solution) :
    l.disconnect.disconnect.faults.take (l.disconnect.faults.length + 1) =
      l.disconnect.faults ++ [if l.tls then .secure else .socket] ∧
    (l.tls = true → ∀ r, l.disconnect.session.submitSolution conn sol = .ok r →
      (l.disconnect.step conn toEpoch version parse submitHashrate (.submitSolution sol)).faults =
        l.disconnect.faults ++ [.secure]) := by
  obtain ⟨ht, hsec, hsock, -⟩ := l.disconnect_spec
  obtain ⟨-, -, -, hf⟩ := l.disconnect.disconnect_spec
  refine ⟨?_, fun htls r hr => ?_⟩
  · cases htls : l.tls
    · simp [hf, ht, htls, hsock htls, Link.socketObj]
    · simp [hf, ht, htls, hsec htls, List.take_append_eq_append_take]
  · cases hl : l.disconnect.session.submitLine conn sol with
    | error e => simp [Session.submitSolution, hl] at hr
    | ok json =>
      simp [Link.step, Session.submitSolution, hl, Link.applyEffects, Link.applyEffect,
        Link.append, Link.asyncWrite, Link.fault, ht, htls, hsec htls]

/-- A TLS connection, `disconnect()`, then a second `disconnect()` or a `submitSolution`. -/
theorem disconnect_leaves_null_socket_tls :
    ∃ (l : Link) (r : Session × List Effect),
      l = (Link.initial ⟨false, false, true, false, false, 1, 0, 0, WorkPackage.empty, "", false, false⟩).run
        ⟨.stratum, "miner", "x"⟩ (fun _ => .ok 0) "" (fun _ => none) false [.connect true] ∧
      l.tls = true ∧
      l.disconnect.session.submitSolution ⟨.stratum, "miner", "x"⟩ ⟨0, 0, WorkPackage.empty, false⟩ =
        .ok r ∧
      l.disconnect.disconnect.faults.take (l.disconnect.faults.length + 1) =
        l.disconnect.faults ++ [if l.tls then .secure else .socket] ∧
      (l.disconnect.step ⟨.stratum, "miner", "x"⟩ (fun _ => .ok 0) "" (fun _ => none) false
        (.submitSolution ⟨0, 0, WorkPackage.empty, false⟩)).faults = l.disconnect.faults ++ [.secure] :=
  ⟨_, _, rfl, rfl, rfl,
    (disconnect_leaves_null_socket ⟨.stratum, "miner", "x"⟩ (fun _ => .ok 0) "" (fun _ => none) false
      _ ⟨0, 0, WorkPackage.empty, false⟩).1,
    (disconnect_leaves_null_socket ⟨.stratum, "miner", "x"⟩ (fun _ => .ok 0) "" (fun _ => none) false
      _ ⟨0, 0, WorkPackage.empty, false⟩).2 rfl _ rfl⟩

end ProgPowMiner.Stratum
