import ProgPowMiner.Work
import Mathlib.Logic.Function.Basic

/-!
# `CUDAMiner::search`: the pipelined nonce search

The host side of `CUDAMiner::search` (`CUDAMiner.cpp`), as a state machine over the worker's
members (`m_current_header`, `m_current_target`, `m_current_nonce`, `m_starting_nonce`,
`m_current_index`, `m_new_work`) and the device state the loop drives: the launches queued on
the streams and the slots of the `search_results` buffers.

The device is modelled at the granularity the host can observe. A launch is queued on its
stream; a `cudaStreamSynchronize` (or `cudaDeviceSynchronize`) finishes the launches queued on
that stream, and their results land in the stream's buffer. The kernel itself is opaque: any
function `kernel` from a launch to the slots it fills. The host's `EthashAux::eval` is the
opaque `eval`.

Every CUDA call and every farm call is recorded as a `HostEvent`, in program order, so that the
pipelining properties of `Pipeline.lean` can be stated over the whole trace of a run, not only
at iteration boundaries. A launch carries a ghost `tick`, the number of loop iterations run
before it, which identifies it uniquely.

A run is a list of `Action`s: entering `search` (with the arguments `workLoop` passes and the
value `get_start_nonce()` returns), one iteration of its `while (true)` loop, and the two
writes other threads make: `kick_miner` (`m_new_work = true`) and a stop request
(`shouldStop()`).
-/

namespace ProgPowMiner.Cuda

/-- What `cuda_configureGPU` stores: `s_numStreams`, `s_gridSize`, `s_blockSize` (all
`unsigned`) and `s_noeval`. `search` reduces `m_current_index % s_numStreams`, so a worker that
searches has at least one stream. -/
structure Config where
  numStreams : Nat
  gridSize : Nat
  blockSize : Nat
  noeval : Bool
  numStreams_pos : 0 < numStreams
  numStreams_lt : numStreams < 2 ^ 32

/-- `c_defaultNumStreams`, `c_defaultGridSize` and `c_defaultBlockSize` (which `configureGPU`
rounds up to a multiple of 8), with `s_noeval = false`. -/
def Config.defaults : Config :=
  ⟨2, 1024, (512 + 7) / 8 * 8, false, by decide, by decide⟩

/-- `const uint32_t batch_size = s_gridSize * s_blockSize`. -/
def Config.batchSize (c : Config) : Nat := u32 (c.gridSize * c.blockSize)

/-- `s_numStreams * batch_size`, an `unsigned` product. -/
def Config.window (c : Config) : Nat := u32 (c.numStreams * c.batchSize)

/-- One result slot as the kernel fills it: `gid` and the mix words. -/
structure Found where
  gid : Nat
  mix : Nat
deriving DecidableEq, Repr

/-- One `cuLaunchKernel` of `search`: the stream, the arguments `m_current_nonce`,
`m_current_header`, `m_current_target`, and the iteration that issued it. -/
structure Launch where
  tick : Nat
  stream : Nat
  nonce : Nat
  header : Nat
  target : Nat
deriving DecidableEq, Repr

/-- A filled slot of a `search_results` buffer, with the launch that filled it. -/
structure Entry where
  launch : Launch
  found : Found
deriving DecidableEq, Repr

/-- The host's device and farm calls, in program order. -/
inductive HostEvent
  | launch (l : Launch)
  | synchronize (i : Nat)
  | synchronizeAll
  /-- The drain of stream `i` in iteration `tick`: `found_count = buffer->count`, the
  `nonce_base` it adds to each `gid`, and the slots it reads. -/
  | read (i tick base : Nat) (entries : List Entry)
  | clear (i : Nat)
  | submit (s : Solution)
  | failedSolution
deriving DecidableEq, Repr

/-- The worker's members `search` reads and writes, and the device state behind them. -/
structure Miner where
  currentHeader : Nat
  currentTarget : Nat
  currentNonce : Nat
  startingNonce : Nat
  currentIndex : Nat
  newWork : Bool
  stopping : Bool
  /-- The package `w` of the `search` call in progress, if any. -/
  work : Option WorkPackage
  /-- Loop iterations run so far (ghost). -/
  tick : Nat
  /-- Launches queued and not yet synchronised. -/
  inFlight : List Launch
  /-- The filled slots of each stream's buffer; `count` is the length. -/
  buffer : Nat → List Entry

/-- The state `cuda_init` leaves after (re)creating the DAG: header, target, nonce and index
zeroed, fresh streams, and buffers nobody has written. -/
def Miner.init (startingNonce : Nat) : Miner where
  currentHeader := 0
  currentTarget := 0
  currentNonce := 0
  startingNonce := startingNonce
  currentIndex := 0
  newWork := false
  stopping := false
  work := none
  tick := 0
  inFlight := []
  buffer := fun _ => []

/-- The actions of a run: a call of `search(header, target, ethStratum, startN, w)` (with the
value `get_start_nonce()` would return), one iteration of its loop, `kick_miner`, and a stop
request. -/
inductive Action
  | search (header target : Nat) (ethStratum : Bool) (startN startNonce : Nat) (w : WorkPackage)
  | iterate
  | kick
  | stop

/-- A `search` call (as opposed to a loop iteration, a kick or a stop request). -/
def Action.isSearch : Action → Bool
  | .search .. => true
  | _ => false

variable (kernel : Launch → List Found) (eval : Int → Nat → Nat → Nat × Nat) (c : Config)

/-- The slots a list of finished launches fills, in launch order. -/
def results (ls : List Launch) : List Entry :=
  ls.flatMap fun l => (kernel l).map (Entry.mk l)

/-- The launches queued on stream `i`. -/
def onStream (i : Nat) (ls : List Launch) : List Launch := ls.filter (·.stream = i)

/-- `cudaStreamSynchronize(m_streams[i])`. -/
def Miner.synchronize (m : Miner) (i : Nat) : Miner :=
  { m with
    inFlight := m.inFlight.filter (·.stream ≠ i)
    buffer := Function.update m.buffer i (m.buffer i ++ results kernel (onStream i m.inFlight)) }

/-- `cudaDeviceSynchronize()` followed by `m_search_buf[i]->count = 0` for every stream: the
reset both `initialize` branches of `search` make. -/
def Miner.resetBuffers (m : Miner) : Miner × List HostEvent :=
  ({ m with
      inFlight := []
      buffer := fun j => if j < c.numStreams then [] else
        m.buffer j ++ results kernel (onStream j m.inFlight) },
    .synchronizeAll :: (List.range c.numStreams).map .clear)

/-- `initialize` of `search`: the header (`memcmp`) or the target differs from the last one. -/
def Miner.restarts (m : Miner) (header target : Nat) : Bool :=
  m.currentHeader != header || m.currentTarget != target

/-- The code of `search` before its loop: `initialize` (here `restart`) when the header or the
target changed, then the `_ethStratum` branch (reset the index, and restart the nonce counter
when `_startN` changed) or the solo branch (restart from `get_start_nonce()`). -/
def Miner.begin (m : Miner) (header target : Nat) (ethStratum : Bool) (startN startNonce : Nat)
    (w : WorkPackage) : Miner × List HostEvent :=
  let restart := m.restarts header target
  let m := { m with currentHeader := header, currentTarget := target, work := some w }
  if ethStratum then
    let (m, ev) :=
      if restart then ({ m with startingNonce := 0, currentIndex := 0 }).resetBuffers kernel c
      else (m, [])
    if m.startingNonce != startN then
      ({ m with startingNonce := startN, currentNonce := startN }, ev)
    else (m, ev)
  else if restart then
    ({ m with currentNonce := startNonce, currentIndex := 0 }).resetBuffers kernel c
  else (m, [])

/-- The farm calls for the slots a drain read: `submitProof` with `m_new_work` as the stale
flag, or `failedSolution` when the host's `EthashAux::eval` rejects the nonce. -/
def proofs (w : WorkPackage) (base : Nat) (stale : Bool) (es : List Entry) : List HostEvent :=
  es.map fun e =>
    let nonce := u64 (base + e.found.gid)
    if c.noeval then .submit ⟨nonce, e.found.mix, w, stale⟩
    else
      let r := eval w.epoch w.header nonce
      if r.1 < w.boundary then .submit ⟨nonce, r.2, w, stale⟩ else .failedSolution

/-- The drain of stream `i` (`m_current_index >= s_numStreams`): synchronise it, read `count`
and up to `SEARCH_RESULTS` slots, and zero `count` when it was not zero. Returns the slots read
and the events. -/
def Miner.drain (m : Miner) (i base : Nat) : Miner × List Entry × List HostEvent :=
  let m := m.synchronize kernel i
  let found := m.buffer i
  ({ m with buffer := Function.update m.buffer i [] }, found.take SEARCH_RESULTS,
    [.synchronize i, .read i m.tick base (found.take SEARCH_RESULTS)] ++
      if found = [] then [] else [.clear i])

/-- One iteration of the `while (true)` loop of `search`: advance the index and the nonce,
drain the stream once the pipeline is full, launch on it, then hand the drained slots to the
farm and test `m_new_work` (and `shouldStop()`). The kernel arguments are the members at the
launch, which the drain does not change. -/
def Miner.iterate (m : Miner) (w : WorkPackage) : Miner × List HostEvent :=
  let index := m.currentIndex + 1
  let nonce := u64 (m.currentNonce + c.batchSize)
  let i := index % c.numStreams
  let base := sub64 nonce c.window
  let l : Launch := ⟨m.tick, i, nonce, m.currentHeader, m.currentTarget⟩
  let (m', drained, ev) := if c.numStreams ≤ index then m.drain kernel i base else (m, [], [])
  let m' := { m' with
    currentIndex := index, currentNonce := nonce, inFlight := m'.inFlight ++ [l], tick := m.tick + 1 }
  let ev := ev ++ [.launch l]
  if c.numStreams ≤ index then
    let ev := ev ++ proofs eval c w base m.newWork drained
    if m.newWork then ({ m' with newWork := false, work := none }, ev)
    else if m.stopping then ({ m' with newWork := false, work := none }, ev)
    else (m', ev)
  else (m', ev)

/-- The launch the next iteration issues. -/
def Miner.nextLaunch (m : Miner) : Launch :=
  ⟨m.tick, (m.currentIndex + 1) % c.numStreams, u64 (m.currentNonce + c.batchSize),
    m.currentHeader, m.currentTarget⟩

/-- The `nonce_base` of the next iteration's drain. -/
def Miner.nextBase (m : Miner) : Nat := sub64 (u64 (m.currentNonce + c.batchSize)) c.window

/-- One action of a run. An action that is not enabled (a second `search` call while one is
in progress, an iteration outside `search`) changes nothing. -/
def Miner.step (m : Miner) : Action → Miner × List HostEvent
  | .search header target ethStratum startN startNonce w =>
    if m.work.isNone then m.begin kernel c header target ethStratum startN startNonce w
    else (m, [])
  | .iterate =>
    match m.work with
    | some w => m.iterate kernel eval c w
    | none => (m, [])
  | .kick => ({ m with newWork := true }, [])
  | .stop => ({ m with stopping := true }, [])

/-- A run: the final state and the trace of host events. -/
def Miner.run : Miner → List Action → Miner × List HostEvent
  | m, [] => (m, [])
  | m, a :: as =>
    let r := m.step kernel eval c a
    let r' := r.1.run as
    (r'.1, r.2 ++ r'.2)

/-! ### Equations -/

section Equations

variable (m : Miner) (i base : Nat) (w : WorkPackage)

@[simp] theorem Miner.synchronize_inFlight :
    (m.synchronize kernel i).inFlight = m.inFlight.filter (·.stream ≠ i) := rfl

@[simp] theorem Miner.synchronize_buffer : (m.synchronize kernel i).buffer =
    Function.update m.buffer i (m.buffer i ++ results kernel (onStream i m.inFlight)) := rfl

@[simp] theorem Miner.synchronize_tick : (m.synchronize kernel i).tick = m.tick := rfl

theorem Miner.drain_entries : (m.drain kernel i base).2.1 =
    (m.buffer i ++ results kernel (onStream i m.inFlight)).take SEARCH_RESULTS := by
  simp [Miner.drain]

theorem Miner.drain_events : (m.drain kernel i base).2.2 =
    [.synchronize i, .read i m.tick base (m.drain kernel i base).2.1] ++
      if m.buffer i ++ results kernel (onStream i m.inFlight) = [] then [] else [.clear i] := by
  simp [Miner.drain]

/-- What one iteration does: the index, the nonce and the iteration count advance, the drained
stream (once the pipeline is full) loses its launches and its slots, the new launch joins the
ones in flight, and the events are the drain's, the launch and the drain's farm calls. -/
theorem Miner.iterate_spec :
    let r := m.iterate kernel eval c w
    r.1.tick = m.tick + 1 ∧ r.1.currentIndex = m.currentIndex + 1 ∧
      r.1.currentNonce = u64 (m.currentNonce + c.batchSize) ∧
      r.1.inFlight = (if c.numStreams ≤ m.currentIndex + 1 then
        m.inFlight.filter (·.stream ≠ (m.currentIndex + 1) % c.numStreams) else m.inFlight) ++
        [m.nextLaunch c] ∧
      r.1.buffer = (if c.numStreams ≤ m.currentIndex + 1 then
        Function.update (m.synchronize kernel ((m.currentIndex + 1) % c.numStreams)).buffer
          ((m.currentIndex + 1) % c.numStreams) []
        else m.buffer) ∧
      r.2 = (if c.numStreams ≤ m.currentIndex + 1 then
        (m.drain kernel ((m.currentIndex + 1) % c.numStreams) (m.nextBase c)).2.2 else []) ++
        .launch (m.nextLaunch c) ::
          if c.numStreams ≤ m.currentIndex + 1 then
            proofs eval c w (m.nextBase c) m.newWork
              (m.drain kernel ((m.currentIndex + 1) % c.numStreams) (m.nextBase c)).2.1
          else [] := by
  simp only [Miner.iterate]
  split_ifs <;> simp [Miner.drain, Miner.nextLaunch, Miner.nextBase]

theorem Miner.iterate_tick : (m.iterate kernel eval c w).1.tick = m.tick + 1 :=
  (m.iterate_spec kernel eval c w).1

theorem Miner.iterate_currentIndex :
    (m.iterate kernel eval c w).1.currentIndex = m.currentIndex + 1 :=
  (m.iterate_spec kernel eval c w).2.1

theorem Miner.iterate_currentNonce :
    (m.iterate kernel eval c w).1.currentNonce = u64 (m.currentNonce + c.batchSize) :=
  (m.iterate_spec kernel eval c w).2.2.1

theorem Miner.iterate_inFlight : (m.iterate kernel eval c w).1.inFlight =
    (if c.numStreams ≤ m.currentIndex + 1 then
      m.inFlight.filter (·.stream ≠ (m.currentIndex + 1) % c.numStreams) else m.inFlight) ++
      [m.nextLaunch c] :=
  (m.iterate_spec kernel eval c w).2.2.2.1

theorem Miner.iterate_buffer : (m.iterate kernel eval c w).1.buffer =
    if c.numStreams ≤ m.currentIndex + 1 then
      Function.update (m.synchronize kernel ((m.currentIndex + 1) % c.numStreams)).buffer
        ((m.currentIndex + 1) % c.numStreams) []
    else m.buffer :=
  (m.iterate_spec kernel eval c w).2.2.2.2.1

theorem Miner.iterate_events : (m.iterate kernel eval c w).2 =
    (if c.numStreams ≤ m.currentIndex + 1 then
      (m.drain kernel ((m.currentIndex + 1) % c.numStreams) (m.nextBase c)).2.2 else []) ++
      .launch (m.nextLaunch c) ::
        if c.numStreams ≤ m.currentIndex + 1 then
          proofs eval c w (m.nextBase c) m.newWork
            (m.drain kernel ((m.currentIndex + 1) % c.numStreams) (m.nextBase c)).2.1
        else [] :=
  (m.iterate_spec kernel eval c w).2.2.2.2.2

theorem Miner.iterate_flags :
    let r := m.iterate kernel eval c w
    r.1.work = (if c.numStreams ≤ m.currentIndex + 1 ∧ (m.newWork = true ∨ m.stopping = true)
        then none else m.work) ∧
      r.1.newWork = (if c.numStreams ≤ m.currentIndex + 1 then false else m.newWork) ∧
      r.1.stopping = m.stopping := by
  simp only [Miner.iterate]
  split_ifs <;> simp_all [Miner.drain, Miner.synchronize]

theorem Miner.iterate_stays (hn : m.newWork = false) (hs : m.stopping = false) :
    (m.iterate kernel eval c w).1.work = m.work ∧ (m.iterate kernel eval c w).1.newWork = false ∧
      (m.iterate kernel eval c w).1.stopping = false := by
  obtain ⟨h1, h2, h3⟩ := m.iterate_flags kernel eval c w
  simp only [hn, hs, Bool.false_eq_true, or_self, and_false, if_false, ite_self] at h1 h2
  exact ⟨h1, h2, h3.trans hs⟩

theorem Miner.iterate_frame :
    let r := m.iterate kernel eval c w
    r.1.currentHeader = m.currentHeader ∧ r.1.currentTarget = m.currentTarget ∧
      r.1.startingNonce = m.startingNonce := by
  simp only [Miner.iterate]
  split_ifs <;> simp [Miner.drain, Miner.synchronize]

theorem Miner.mem_iterate_inFlight {l : Launch} (h : l ∈ (m.iterate kernel eval c w).1.inFlight) :
    l ∈ m.inFlight ∨ l = m.nextLaunch c := by
  rw [Miner.iterate_inFlight, List.mem_append, List.mem_singleton] at h
  split_ifs at h
  · exact h.imp_left fun h => (List.mem_filter.mp h).1
  · exact h

variable (header target : Nat) (ethStratum : Bool) (startN startNonce : Nat)

theorem Miner.restarts_eq_false {m : Miner} {header target : Nat}
    (h : m.restarts header target = false) :
    m.currentHeader = header ∧ m.currentTarget = target := by
  simpa [Miner.restarts] using h

theorem Miner.begin_header_startingNonce :
    let r := m.begin kernel c header target ethStratum startN startNonce w
    r.1.currentHeader = header ∧
      r.1.startingNonce = if ethStratum then startN else m.startingNonce := by
  simp only [Miner.begin]
  cases ethStratum <;> split_ifs <;> simp_all [Miner.resetBuffers]

theorem Miner.begin_currentNonce (h : m.restarts header target = false)
    (hs : ethStratum = true → m.startingNonce = startN) :
    (m.begin kernel c header target ethStratum startN startNonce w).1.currentNonce =
      m.currentNonce := by
  simp only [Miner.begin, h]
  cases ethStratum <;> simp_all


/-- What `begin` does to the members the pipeline reads: the index restarts and the launches and
buffers are reset exactly when the header or the target changed. -/
theorem Miner.begin_spec :
    let r := m.begin kernel c header target ethStratum startN startNonce w
    r.1.tick = m.tick ∧
      r.1.currentIndex = (if m.restarts header target then 0 else m.currentIndex) ∧
      r.1.inFlight = (if m.restarts header target then [] else m.inFlight) ∧
      r.1.buffer = (if m.restarts header target then (m.resetBuffers kernel c).1.buffer
        else m.buffer) ∧
      r.2 = if m.restarts header target then (m.resetBuffers kernel c).2 else [] := by
  simp only [Miner.begin]
  cases ethStratum <;> split_ifs <;> exact ⟨rfl, rfl, rfl, rfl, rfl⟩

theorem Miner.begin_flags :
    let r := m.begin kernel c header target ethStratum startN startNonce w
    r.1.work = some w ∧ r.1.newWork = m.newWork ∧ r.1.stopping = m.stopping := by
  simp only [Miner.begin]
  cases ethStratum <;> split_ifs <;> exact ⟨rfl, rfl, rfl⟩

theorem Miner.begin_tick :
    (m.begin kernel c header target ethStratum startN startNonce w).1.tick = m.tick :=
  (m.begin_spec kernel c w header target ethStratum startN startNonce).1

theorem Miner.begin_currentIndex :
    (m.begin kernel c header target ethStratum startN startNonce w).1.currentIndex =
      if m.restarts header target then 0 else m.currentIndex :=
  (m.begin_spec kernel c w header target ethStratum startN startNonce).2.1

theorem Miner.begin_inFlight :
    (m.begin kernel c header target ethStratum startN startNonce w).1.inFlight =
      if m.restarts header target then [] else m.inFlight :=
  (m.begin_spec kernel c w header target ethStratum startN startNonce).2.2.1

theorem Miner.begin_buffer :
    (m.begin kernel c header target ethStratum startN startNonce w).1.buffer =
      if m.restarts header target then (m.resetBuffers kernel c).1.buffer else m.buffer :=
  (m.begin_spec kernel c w header target ethStratum startN startNonce).2.2.2.1

theorem Miner.begin_events :
    (m.begin kernel c header target ethStratum startN startNonce w).2 =
      if m.restarts header target then (m.resetBuffers kernel c).2 else [] :=
  (m.begin_spec kernel c w header target ethStratum startN startNonce).2.2.2.2

end Equations

end ProgPowMiner.Cuda
