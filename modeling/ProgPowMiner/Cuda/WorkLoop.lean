import ProgPowMiner.Cuda.Search

/-!
# `CUDAMiner::workLoop`: dispatching work to `search`

The outer loop of a CUDA worker (`CUDAMiner::workLoop`): take the latest package `w`, and when
its header, epoch or ProgPoW period differs from `current`, re-initialise the device on an epoch
change (`init`, `cuda_init`), recompile the kernel on a period change (`compileKernel`) and
install `w` as `current`; then call `search` with the header, target and start nonce of
`current` and the package `w`.

The device is modelled by what `cuda_init` and `compileKernel` establish: whether `m_dag` is
allocated, `m_dag_elms`, and ghost records of the epoch whose DAG the buffer holds, of the
number of `cudaDeviceReset` calls so far, of the context the kernel was loaded into and of the
context the stream and result-buffer arrays were filled in. `cuda_init` is the one of the
default `DAG_LOAD_MODE_PARALLEL`, where every device generates its own DAG; the shared-buffer
modes are the subject of `DagLoad.lean`.

The functions the worker takes from outside `CUDAMiner.cpp` are parameters (`Env`):
`ethash_get_datasize`, the block number of `EthashAux::light(epoch)`, the divisor
`PROGPOW_LANES * PROGPOW_DAG_LOADS * 4`, and the device count and memory. So are
`LOG2_MAX_MINERS` (declared in `libethcore/Miner.h`) and the worker's `index`.

* `workLoop_target_stale` (failing input): the target and start nonce come from `current`,
  which a package differing only in its boundary does not replace.
* `workLoop_searches_stale_dag` (failing input): `init` drops the `false` that `cuda_init`
  returns for a device too small for the new DAG, and the worker then searches with the previous
  epoch's DAG, a kernel compiled for another DAG size, and stream arrays never filled.
* `workLoop_searches_current_dag`: when every DAG fits and the pool's packages agree on epoch,
  period and DAG size (`Env.Serves`), every `search` call is made in a `Worker.Ready` state: the
  DAG of `current`'s epoch, stream arrays filled and a kernel for its element count and
  `current`'s period, both in the live context. The invariant `Worker.Serving` (the start state, or a ready one on a served
  package) is kept by each pass (`Worker.next_ready`) and so by the whole loop.
-/

namespace ProgPowMiner.Cuda

/-- What the device code takes from outside `CUDAMiner.cpp`. -/
structure Env where
  /-- `ethash_get_datasize(block_number)`. -/
  datasize : Nat → Nat
  /-- `EthashAux::light(epoch)->block_number`. -/
  lightBlock : Int → Nat
  /-- `PROGPOW_LANES * PROGPOW_DAG_LOADS * 4`. -/
  elementBytes : Nat
  /-- `getNumDevices()`. -/
  numDevices : Nat
  /-- `cudaDeviceProp::totalGlobalMem` of the worker's device. -/
  totalGlobalMem : Nat

/-- `(unsigned)(dagBytes / (PROGPOW_LANES * PROGPOW_DAG_LOADS * 4))`. -/
def Env.dagElms (env : Env) (dagBytes : Nat) : Nat := u32 (dagBytes / env.elementBytes)

/-- The loaded `m_kernel`: the block number and `PROGPOW_DAG_ELEMENTS` it was compiled for, and
the context (counted in device resets) its module was loaded into. -/
structure KernelTag where
  height : Nat
  dagElms : Nat
  generation : Nat
deriving DecidableEq, Repr

/-- The device side of a worker. -/
structure Device where
  /-- `m_dag != nullptr`. -/
  dagAllocated : Bool
  /-- `m_dag_elms`. -/
  dagElms : Nat
  /-- The epoch whose DAG the buffer holds (ghost); `none` for a buffer nobody filled. -/
  dagEpoch : Option Int
  /-- `cudaDeviceReset` calls so far (ghost). -/
  generation : Nat
  kernel : Option KernelTag
  /-- The context in which `m_streams` and `m_search_buf` were filled (ghost); `none` for
  arrays `cuda_init` allocated and left unfilled. -/
  streams : Option Nat
deriving DecidableEq, Repr

/-- A device no `cuda_init` has touched; `m_dag_elms` starts at `dagElms`. -/
def Device.fresh (dagElms : Nat) : Device := ⟨false, dagElms, none, 0, none, none⟩

variable (env : Env)

/-- `cuda_init` of `DAG_LOAD_MODE_PARALLEL`: fresh stream arrays; when the element count
changed or there is no DAG, check the device memory, reset the device, allocate the DAG, fill
the stream arrays and generate the DAG. Returns its `bool`. -/
def Device.cudaInit (d : Device) (epoch : Int) : Bool × Device :=
  if env.numDevices = 0 then (false, d) else
  let d := { d with streams := none }
  let dagBytes := env.datasize (env.lightBlock epoch)
  let dagElms := env.dagElms dagBytes
  let regen := dagElms != d.dagElms || !d.dagAllocated
  if regen && decide (env.totalGlobalMem < dagBytes) then (false, d) else
  let d := if regen then
    { d with generation := d.generation + 1, dagAllocated := false, dagEpoch := none } else d
  let d := if dagElms != d.dagElms || !d.dagAllocated then
    { d with dagAllocated := true, dagEpoch := none } else d
  let d := if dagElms != d.dagElms then
    { d with streams := some d.generation, dagEpoch := some epoch } else d
  (true, { d with dagElms := dagElms })

/-- `CUDAMiner::init`: `cuda_init`, whose result is not looked at, then `return true`. -/
def Device.init (d : Device) (epoch : Int) : Bool × Device :=
  (true, (d.cudaInit env epoch).2)

/-- `compileKernel(block_number, dag_elms)`: the module is loaded into the current context. -/
def Device.compileKernel (d : Device) (height dagElms : Nat) : Device :=
  { d with kernel := some ⟨height, dagElms, d.generation⟩ }

/-- The arguments of a `search` call. `startN` is `none` when its shift is undefined. -/
structure SearchCall where
  header : Nat
  target : Nat
  ethStratum : Bool
  startN : Option Nat
  work : WorkPackage
deriving DecidableEq, Repr

/-- `(uint64_t)index << s` for a shift amount `s` that may be out of range. -/
def shiftLeft64 (x : Nat) (s : Int) : Option Nat :=
  if 0 ≤ s ∧ s < 64 then some (u64 (x * 2 ^ s.toNat)) else none

/-- The start nonce `workLoop` computes from a package: the pool's `startNonce`, with the
worker index placed below the extranonce when `exSizeBits >= 0`. -/
def startNonceOf (lg index : Nat) (p : WorkPackage) : Option Nat :=
  if 0 ≤ p.exSizeBits then
    (shiftLeft64 index (64 - lg - p.exSizeBits)).map (p.startNonce ||| ·)
  else some p.startNonce

/-- The worker's `workLoop` locals and its device. -/
structure Worker where
  current : WorkPackage
  oldPeriodSeed : Nat
  device : Device

/-- `current.header = h256{1u}`, `old_period_seed = -1`. -/
def Worker.start (d : Device) : Worker := ⟨{ WorkPackage.empty with header := 1 }, 2 ^ 64 - 1, d⟩

/-- The `search` call for `current` and the package `w`. -/
def Worker.call (lg index : Nat) (s : Worker) (w : WorkPackage) : SearchCall :=
  ⟨s.current.header, u64 (s.current.boundary / 2 ^ 192), decide (0 ≤ s.current.exSizeBits),
    startNonceOf lg index s.current, w⟩

/-- One pass of `while (!shouldStop())` on the package `work()` returned: `none` for the
`break` after a failed `init`, otherwise the new locals and the `search` call, if any (`none`
on the `No work.` branch). -/
def Worker.next (lg index : Nat) (s : Worker) (w : WorkPackage) :
    Option (Worker × Option SearchCall) :=
  let periodSeed := w.height / PROGPOW_PERIOD
  if s.current.header != w.header || s.current.epoch != w.epoch || s.oldPeriodSeed != periodSeed
  then
    if !w.isWork || w.header == 0 then some (s, none) else
    let r := if s.current.epoch != w.epoch then s.device.init env w.epoch else (true, s.device)
    if !r.1 then none else
    let d := if s.oldPeriodSeed != periodSeed then
      r.2.compileKernel w.height (env.dagElms (env.datasize w.height)) else r.2
    let s := { s with device := d, oldPeriodSeed := periodSeed, current := w }
    some (s, some (s.call lg index w))
  else some (s, some (s.call lg index w))

/-- A run of `workLoop` over the packages `work()` returns: each `search` call with the worker
state it is made in. -/
def Worker.run (lg index : Nat) : Worker → List WorkPackage → List (Worker × SearchCall)
  | _, [] => []
  | s, w :: ws =>
    match s.next env lg index w with
    | none => []
    | some (s', none) => s'.run lg index ws
    | some (s', some call) => (s', call) :: s'.run lg index ws

/-! ### What `search` is called with -/

variable {env} {lg index : Nat}

/-- Two packages that differ only in their boundary: the second `search` call validates against
the new boundary but hands the kernel the target of the old one, since `current` keeps the
first package. -/
theorem workLoop_target_stale :
    ∃ call ∈ ((Worker.start (Device.fresh 0)).run ⟨fun _ => 0, fun _ => 0, 1, 1, 0⟩ 5 0
      [⟨7, 0, 2 ^ 240, 0, 0, 0, 0, -1⟩, ⟨7, 0, 2 ^ 230, 0, 0, 0, 0, -1⟩]).map Prod.snd,
      call.target ≠ u64 (call.work.boundary / 2 ^ 192) := by
  decide

/-- A device with memory for the DAG of epoch 0 (1073739904 bytes) but not for that of epoch 1
(1082130304 bytes): `cuda_init` returns `false` before the reset, `init` returns `true`, and
`workLoop` compiles a kernel for epoch 1's DAG and searches. At that call the device holds epoch
0's DAG, the kernel's `PROGPOW_DAG_ELEMENTS` is not `m_dag_elms`, and the stream arrays
`cuda_init` allocated were never filled. -/
theorem workLoop_searches_stale_dag :
    ∃ p ∈ (Worker.start (Device.fresh 0)).run
      ⟨fun n => if n < 30000 then 1073739904 else 1082130304, fun e => e.toNat * 30000, 256, 1,
        1080000000⟩ 5 0
      [⟨7, 0, 2 ^ 240, 0, 0, 0, 0, -1⟩, ⟨8, 1, 2 ^ 240, 30000, 0, 0, 0, -1⟩],
      p.1.device.dagEpoch ≠ some p.1.current.epoch ∧
      p.1.device.kernel.map (·.dagElms) ≠ some p.1.device.dagElms ∧
      p.1.device.streams ≠ some p.1.device.generation := by
  decide

/-! ### When every DAG fits -/

section Serving

/-- The `m_dag_elms` that `cuda_init` computes for the light of `epoch`. -/
def Env.epochElms (env : Env) (epoch : Int) : Nat :=
  env.dagElms (env.datasize (env.lightBlock epoch))

/-- What the environment promises the work packages `L`: a device with the memory for every
DAG, and packages whose height, epoch and period agree the way Ethash's do. `d0` is the initial
`m_dag_elms`. -/
structure Env.Serves (env : Env) (d0 : Nat) (L : List WorkPackage) : Prop where
  devices : 0 < env.numDevices
  fits : ∀ w ∈ L, env.datasize (env.lightBlock w.epoch) ≤ env.totalGlobalMem
  /-- `ethash_get_datasize(w.height)`, which `compileKernel` gets, is the size of `w`'s DAG. -/
  datasize : ∀ w ∈ L, env.datasize w.height = env.datasize (env.lightBlock w.epoch)
  epoch : ∀ w ∈ L, 0 ≤ w.epoch
  height : ∀ w ∈ L, w.height < 2 ^ 64
  /-- A ProgPoW period lies within one epoch. -/
  period : ∀ w ∈ L, ∀ w' ∈ L, w.height / PROGPOW_PERIOD = w'.height / PROGPOW_PERIOD →
    w.epoch = w'.epoch
  /-- Distinct epochs have DAGs of distinct sizes. -/
  elms : ∀ w ∈ L, ∀ w' ∈ L, env.epochElms w.epoch = env.epochElms w'.epoch → w.epoch = w'.epoch
  fresh : ∀ w ∈ L, env.epochElms w.epoch ≠ d0

/-- What a `search` call needs of the device: the DAG of `current`'s epoch, stream arrays
filled in the live context, and a kernel loaded there for the DAG's element count and compiled
for `current`'s ProgPoW period. -/
structure Worker.Ready (env : Env) (s : Worker) : Prop where
  dag : s.device.dagEpoch = some s.current.epoch
  elms : s.device.dagElms = env.epochElms s.current.epoch
  streams : s.device.streams = some s.device.generation
  kernel : ∃ h, s.device.kernel = some ⟨h, s.device.dagElms, s.device.generation⟩ ∧
    h / PROGPOW_PERIOD = s.current.height / PROGPOW_PERIOD
  period : s.oldPeriodSeed = s.current.height / PROGPOW_PERIOD

/-- The loop invariant: the locals `workLoop` starts with, or a ready worker on a package of
`L`. -/
def Worker.Serving (env : Env) (d0 : Nat) (L : List WorkPackage) (s : Worker) : Prop :=
  s = Worker.start (Device.fresh d0) ∨ s.Ready env ∧ s.current ∈ L

variable {d0 : Nat} {L : List WorkPackage} {s : Worker} {w : WorkPackage}

/-- `cuda_init` for an epoch whose DAG has a new size and fits: a device reset, and the DAG and
stream arrays filled in the new context. -/
theorem Device.cudaInit_regen {d : Device} {e : Int} (hn : 0 < env.numDevices)
    (he : env.epochElms e ≠ d.dagElms) (hf : env.datasize (env.lightBlock e) ≤ env.totalGlobalMem) :
    (d.cudaInit env e).2 = { d with
      generation := d.generation + 1, dagAllocated := true, dagEpoch := some e
      streams := some (d.generation + 1), dagElms := env.epochElms e } := by
  have h1 : env.numDevices ≠ 0 := by omega
  have h2 : ¬ env.totalGlobalMem < env.datasize (env.lightBlock e) := by omega
  simp only [Env.epochElms] at he
  simp [Device.cudaInit, h1, h2, he, Env.epochElms]

theorem Worker.Serving.ready_of_epoch (hL : env.Serves d0 L) (hs : s.Serving env d0 L)
    (hw : w ∈ L) (he : s.current.epoch = w.epoch) : s.Ready env ∧ s.current ∈ L := by
  rcases hs with rfl | hs
  · have := hL.epoch w hw
    simp [Worker.start, WorkPackage.empty] at he
    omega
  · exact hs

/-- Leaving a served epoch for another: the DAG size and the period both change. -/
theorem Worker.Serving.regen_of_epoch (hL : env.Serves d0 L) (hs : s.Serving env d0 L)
    (hw : w ∈ L) (he : s.current.epoch ≠ w.epoch) :
    env.epochElms w.epoch ≠ s.device.dagElms ∧ s.oldPeriodSeed ≠ w.height / PROGPOW_PERIOD := by
  rcases hs with rfl | ⟨hr, hc⟩
  · have := hL.height w hw
    exact ⟨hL.fresh w hw, by simp only [Worker.start, PROGPOW_PERIOD]; omega⟩
  · rw [hr.elms, hr.period]
    exact ⟨fun h => he (hL.elms _ hw _ hc h).symm, fun h => he (hL.period _ hc _ hw h)⟩

/-- One pass keeps `Serving`, and a pass that calls `search` leaves the worker ready. -/
theorem Worker.next_ready (hL : env.Serves d0 L) (hw : w.isWork → w ∈ L)
    (hs : s.Serving env d0 L) {s' : Worker} {c : Option SearchCall}
    (h : s.next env lg index w = some (s', c)) :
    s'.Serving env d0 L ∧ (c.isSome → s'.Ready env) := by
  unfold Worker.next at h
  cases hch : (s.current.header != w.header || s.current.epoch != w.epoch ||
      s.oldPeriodSeed != w.height / PROGPOW_PERIOD)
  case false =>
    simp only [hch, Bool.false_eq_true, ↓reduceIte, Option.some.injEq, Prod.mk.injEq] at h
    obtain ⟨rfl, rfl⟩ := h
    simp only [Bool.or_eq_false_iff, bne_eq_false_iff_eq] at hch
    rcases hs with rfl | ⟨hr, hc⟩
    · -- `w` has the start header, so it is work, yet the start epoch `-1`
      have := hL.epoch w (hw (by simp [WorkPackage.isWork, ← hch.1.1, Worker.start]))
      simp only [Worker.start, WorkPackage.empty] at hch
      omega
    · exact ⟨.inr ⟨hr, hc⟩, fun _ => hr⟩
  simp only [hch, ↓reduceIte] at h
  by_cases hwk : (!w.isWork || w.header == 0) = true
  · simp only [hwk, ↓reduceIte, Option.some.injEq, Prod.mk.injEq] at h
    obtain ⟨rfl, rfl⟩ := h
    exact ⟨hs, nofun⟩
  replace hw := hw (show w.isWork = true ∧ _ by simpa using hwk).1
  suffices ready : s'.Ready env ∧ s'.current = w from
    ⟨.inr ⟨ready.1, ready.2 ▸ hw⟩, fun _ => ready.1⟩
  have hk : env.dagElms (env.datasize w.height) = env.epochElms w.epoch := by
    rw [Env.epochElms, hL.datasize w hw]
  by_cases he : s.current.epoch = w.epoch
  case pos =>
    obtain ⟨hr, -⟩ := hs.ready_of_epoch hL hw he
    simp only [hwk, he, bne_self_eq_false, Bool.false_eq_true, ↓reduceIte, Bool.not_true,
      Option.some.injEq, Prod.mk.injEq] at h
    obtain ⟨rfl, rfl⟩ := h
    have hd := hr.dag.trans (congrArg some he)
    have hm := hr.elms.trans (congrArg env.epochElms he)
    split_ifs with hp
    · exact ⟨⟨hd, hm, hr.streams, ⟨w.height, by rw [Device.compileKernel, hk, ← hm], rfl⟩, rfl⟩,
        rfl⟩
    · obtain ⟨h, hk', hh⟩ := hr.kernel
      have hp : s.oldPeriodSeed = w.height / PROGPOW_PERIOD := by simpa using hp
      exact ⟨⟨hd, hm, hr.streams, ⟨h, hk', hh.trans (hr.period.symm.trans hp)⟩, rfl⟩, rfl⟩
  case neg =>
    obtain ⟨hg, hp⟩ := hs.regen_of_epoch hL hw he
    simp only [hwk, bne_iff_ne, ne_eq, he, hp, not_false_eq_true, ↓reduceIte, Device.init,
      Device.cudaInit_regen hL.devices hg (hL.fits w hw), Bool.not_true, Bool.false_eq_true,
      Option.some.injEq, Prod.mk.injEq] at h
    obtain ⟨rfl, rfl⟩ := h
    exact ⟨⟨rfl, rfl, rfl, ⟨w.height, by rw [Device.compileKernel, hk], rfl⟩, rfl⟩, rfl⟩

theorem Worker.run_ready (hL : env.Serves d0 L) (ws : List WorkPackage) :
    ∀ s : Worker, s.Serving env d0 L → (∀ w ∈ ws, w.isWork → w ∈ L) →
      ∀ p ∈ s.run env lg index ws, p.1.Ready env := by
  induction ws with
  | nil => simp [Worker.run]
  | cons w ws ih =>
    intro s hs hws p hp
    have tail := fun v hv => hws v (List.mem_cons_of_mem w hv)
    simp only [Worker.run] at hp
    split at hp
    · simp at hp
    · rename_i s' h
      exact ih s' (Worker.next_ready hL (hws w (.head _)) hs h).1 tail p hp
    · rename_i s' call h
      have hn := Worker.next_ready hL (hws w (.head _)) hs h
      rcases List.mem_cons.mp hp with rfl | hp
      · exact hn.2 rfl
      · exact ih s' hn.1 tail p hp

end Serving

theorem workLoop_searches_current_dag {d0 : Nat} {ws : List WorkPackage}
    (hL : env.Serves d0 (ws.filter WorkPackage.isWork)) :
    ∀ p ∈ (Worker.start (Device.fresh d0)).run env lg index ws, p.1.Ready env :=
  Worker.run_ready hL ws _ (.inl rfl) fun _ hw hk => List.mem_filter.mpr ⟨hw, hk⟩

/-- The two epochs of `workLoop_searches_stale_dag` on a device with memory for both, after an
empty package: both `search` calls are made ready. -/
theorem workLoop_searches_current_dag_two_epochs :
    Env.Serves ⟨fun n => if n < 30000 then 1073739904 else 1082130304, fun e => e.toNat * 30000,
      256, 1, 2 ^ 31⟩ 0 ([WorkPackage.empty, ⟨7, 0, 2 ^ 240, 0, 0, 0, 0, -1⟩,
        ⟨8, 1, 2 ^ 240, 30000, 0, 0, 0, -1⟩].filter WorkPackage.isWork) ∧
    ((Worker.start (Device.fresh 0)).run ⟨fun n => if n < 30000 then 1073739904 else 1082130304,
      fun e => e.toNat * 30000, 256, 1, 2 ^ 31⟩ 5 0 [WorkPackage.empty,
        ⟨7, 0, 2 ^ 240, 0, 0, 0, 0, -1⟩, ⟨8, 1, 2 ^ 240, 30000, 0, 0, 0, -1⟩]).length = 2 ∧
    ∀ p ∈ (Worker.start (Device.fresh 0)).run ⟨fun n => if n < 30000 then 1073739904 else 1082130304,
      fun e => e.toNat * 30000, 256, 1, 2 ^ 31⟩ 5 0 [WorkPackage.empty,
        ⟨7, 0, 2 ^ 240, 0, 0, 0, 0, -1⟩, ⟨8, 1, 2 ^ 240, 30000, 0, 0, 0, -1⟩],
      p.1.Ready ⟨fun n => if n < 30000 then 1073739904 else 1082130304, fun e => e.toNat * 30000,
        256, 1, 2 ^ 31⟩ := by
  have hL : Env.Serves ⟨fun n => if n < 30000 then 1073739904 else 1082130304,
      fun e => e.toNat * 30000, 256, 1, 2 ^ 31⟩ 0 ([WorkPackage.empty,
        ⟨7, 0, 2 ^ 240, 0, 0, 0, 0, -1⟩, ⟨8, 1, 2 ^ 240, 30000, 0, 0, 0, -1⟩].filter
          WorkPackage.isWork) :=
    ⟨by decide, by decide, by decide, by decide, by decide, by decide, by decide, by decide⟩
  exact ⟨hL, by decide, workLoop_searches_current_dag hL⟩

end ProgPowMiner.Cuda
