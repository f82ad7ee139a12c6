import ProgPowMiner.Cuda.NonceSpace

/-!
# `CUDAMiner::configureGPU`: the devices and the kernel shape

Before any worker starts, `setDevices` copies the device numbers the user selected into
`s_devices` (a `vector<int>` of `MAX_MINERS` entries, `-1` when unset), `setNumInstances` caps
the number of workers at `getNumDevices()`, and `configureGPU` stores the DAG load mode, the
creator device and `s_exit`, rounds the block size up to a multiple of 8 and calls
`cuda_configureGPU`. That one stores the kernel shape (`s_blockSize`, `s_gridSize`,
`s_numStreams`, `s_scheduleFlag`, `s_noeval`) and scans the device slots below
`getNumDevices()`: for every slot that is set, the device it names, clamped to the last one, must
hold the DAG of `_currentBlock`, and the first that does not makes it return `false`. A worker
later initialises the device `init` picks (`s_devices[index]`, or `index` when the slot is
unset), clamped again by `cuda_init`.

`getNumDevices()`, `ethash_get_datasize` and `cudaGetDeviceProperties` (reduced to the
`totalGlobalMem` it reports, or its failure) are parameters; `MAX_MINERS` is `2 ^ lg`.

* `cudaConfigureGPU_outcome`: `cuda_configureGPU` returns `true` exactly when every slot below
  the device count is inside `s_devices` and, when set, names (after the clamp) a device whose
  memory holds the DAG; otherwise it ends at the first slot that does not, with `false` for a
  device too small, the `cuda_runtime_error` of a failed property query, or a read past the end
  of `s_devices`.
* `selected_devices_checked`: after `setDevices` with device numbers below `2 ^ 31` and a
  `configureGPU` that returned `true`, every worker whose slot was set runs `cuda_init` on a
  device whose memory `configureGPU` checked.
-/

namespace ProgPowMiner.Cuda

/-- What ends `cuda_configureGPU` other than a return: the `cuda_runtime_error` of a failed
`CUDA_SAFE_CALL`, which it catches and answers with `exit(-1)`, and a read past the end of
`s_devices`. -/
inductive ConfigureFault
  | cudaError
  | undefinedBehaviour
deriving DecidableEq, Repr

/-- An `unsigned` converted to `int`: the two's complement reading of its 32 bits. -/
def toInt32 (x : Nat) : Int := if u32 x < 2 ^ 31 then u32 x else (u32 x : Int) - 2 ^ 32

/-- `setDevices(_devices, _selectedDeviceCount)`: `s_devices[i] = _devices[i]` for each
`i < _selectedDeviceCount`, in order. An index past either vector is undefined behaviour
(`none`). -/
def setDevices (sDevices : List Int) (devices : List Nat) : Nat → Option (List Int)
  | 0 => some sDevices
  | i + 1 => do
    let sd ← setDevices sDevices devices i
    let d ← devices[i]?
    if i < sd.length then some (sd.set i (toInt32 d)) else none

/-- `setNumInstances(_instances)`: `s_numInstances = min(_instances, getNumDevices())`. -/
def setNumInstances (instances numDevices : Nat) : Nat := min instances numDevices

/-- `((_blockSize + 7) / 8) * 8` in `unsigned` arithmetic. -/
def roundBlockSize (blockSize : Nat) : Nat := u32 (u32 (blockSize + 7) / 8 * 8)

theorem roundBlockSize_spec {b : Nat} (hb : b < 2 ^ 32) :
    (b ≤ 2 ^ 32 - 8 → roundBlockSize b % 8 = 0 ∧ b ≤ roundBlockSize b ∧ roundBlockSize b < b + 8) ∧
      (2 ^ 32 - 8 < b → roundBlockSize b = 0) := by
  simp only [roundBlockSize, u32]
  omega

example : roundBlockSize (2 ^ 32 - 1) = 0 := by decide

/-- The loop of `cuda_configureGPU` over the device slots `is`: a set slot names the device
`min(devicesCount - 1, _devices[i])`, whose `totalGlobalMem` must reach `dagSize`. -/
def scanDevices (totalGlobalMem : Int → Option Nat) (devices : List Int) (n dagSize : Nat) :
    List Nat → Except ConfigureFault Bool
  | [] => .ok true
  | i :: is =>
    match devices[i]? with
    | none => .error .undefinedBehaviour
    | some d =>
      if d ≠ -1 then
        match totalGlobalMem (min ((n : Int) - 1) d) with
        | none => .error .cudaError
        | some m =>
          if dagSize ≤ m then scanDevices totalGlobalMem devices n dagSize is else .ok false
      else scanDevices totalGlobalMem devices n dagSize is

/-- The statics `configureGPU` and `cuda_configureGPU` write, all before the device scan. -/
structure Statics where
  dagLoadMode : Nat
  dagCreateDevice : Nat
  exit : Bool
  blockSize : Nat
  gridSize : Nat
  numStreams : Nat
  scheduleFlag : Nat
  noeval : Bool
deriving DecidableEq, Repr

/-- The kernel shape `search` runs with, when it has a stream to run on. -/
def Statics.config? (s : Statics) : Option Config :=
  if h : 0 < s.numStreams ∧ s.numStreams < 2 ^ 32 then
    some ⟨s.numStreams, s.gridSize, s.blockSize, s.noeval, h.1, h.2⟩
  else none

variable (totalGlobalMem : Int → Option Nat) (datasize : Nat → Nat)

/-- `cuda_configureGPU(numDevices, _devices, ...)`'s scan: `static_cast<int>(numDevices)`
slots, and the DAG of `_currentBlock`. -/
def cudaConfigureGPU (numDevices : Nat) (devices : List Int) (currentBlock : Nat) :
    Except ConfigureFault Bool :=
  scanDevices totalGlobalMem devices numDevices (datasize currentBlock) (List.range numDevices)

/-- `configureGPU(...)`: the statics it and `cuda_configureGPU` store, and what the latter
returns on the device slots `s_devices`. -/
def configureGPU (numDevices : Nat) (sDevices : List Int)
    (blockSize gridSize numStreams scheduleFlag currentBlock dagLoadMode dagCreateDevice : Nat)
    (noeval exit : Bool) : Statics × Except ConfigureFault Bool :=
  (⟨dagLoadMode, dagCreateDevice, exit, roundBlockSize blockSize, gridSize, numStreams,
      scheduleFlag, noeval⟩,
    cudaConfigureGPU totalGlobalMem datasize numDevices sDevices currentBlock)

/-- The device `init` passes to `cuda_init` for worker `index`:
`s_devices[index] > -1 ? s_devices[index] : index`. -/
def initDevice (sDevices : List Int) (index : Nat) : Option Nat :=
  sDevices[index]?.map fun d => if -1 < d then d.toNat else index

/-- `m_device_num` in `cuda_init`: `_deviceId < numDevices - 1 ? _deviceId : numDevices - 1`
(reached only with `numDevices > 0`). -/
def cudaInitDevice (numDevices deviceId : Nat) : Nat :=
  if deviceId < numDevices - 1 then deviceId else numDevices - 1

/-! ### The device scan -/

/-- Slot `i` lets the scan go on: it is inside the table and, when set, names (after the clamp
to `n - 1`) a device whose query succeeds with room for `dagSize`. -/
def SlotFits (devices : List Int) (n dagSize i : Nat) : Prop :=
  ∃ d, devices[i]? = some d ∧
    (d ≠ -1 → ∃ m, totalGlobalMem (min ((n : Int) - 1) d) = some m ∧ dagSize ≤ m)

/-- What the scan does at slot `i`: go on (`none`), or end with what it returns or how it
fails. -/
def slotStop (devices : List Int) (n dagSize i : Nat) : Option (Except ConfigureFault Bool) :=
  match devices[i]? with
  | none => some (.error .undefinedBehaviour)
  | some d =>
    if d ≠ -1 then
      match totalGlobalMem (min ((n : Int) - 1) d) with
      | none => some (.error .cudaError)
      | some m => if dagSize ≤ m then none else some (.ok false)
    else none

/-- The scan ends as its first slot that stops it does, and returns `true` when none does. -/
theorem scanDevices_eq_findSome? (devices : List Int) (n dagSize : Nat) :
    ∀ is : List Nat, scanDevices totalGlobalMem devices n dagSize is =
      (is.findSome? (slotStop totalGlobalMem devices n dagSize)).getD (.ok true)
  | [] => rfl
  | i :: is => by
    rw [scanDevices, List.findSome?_cons, slotStop, scanDevices_eq_findSome? devices n dagSize is]
    cases devices[i]? with
    | none => rfl
    | some d =>
      dsimp only
      split_ifs
      · cases totalGlobalMem (min ((n : Int) - 1) d) with
        | none => rfl
        | some m => dsimp only; split_ifs <;> rfl
      · rfl

theorem slotStop_eq_none {devices : List Int} {n dagSize i : Nat} :
    slotStop totalGlobalMem devices n dagSize i = none ↔
      SlotFits totalGlobalMem devices n dagSize i := by
  unfold slotStop SlotFits
  split
  · next h => simp [h]
  · next d h =>
    simp only [h, Option.some.injEq, exists_eq_left']
    split_ifs with h1
    · split <;> simp_all
    · simp_all

theorem slotStop_ne_true (devices : List Int) (n dagSize i : Nat) :
    slotStop totalGlobalMem devices n dagSize i ≠ some (.ok true) := by
  unfold slotStop
  cases devices[i]? with
  | none => nofun
  | some d =>
    dsimp only
    split_ifs
    · cases totalGlobalMem (min ((n : Int) - 1) d) with
      | none => nofun
      | some m => dsimp only; split_ifs <;> nofun
    · nofun

theorem slotStop_eq_some {devices : List Int} {n dagSize i : Nat} :
    (slotStop totalGlobalMem devices n dagSize i = some (.ok false) ↔
      ∃ d, devices[i]? = some d ∧ d ≠ -1 ∧
        ∃ m, totalGlobalMem (min ((n : Int) - 1) d) = some m ∧ m < dagSize) ∧
    (slotStop totalGlobalMem devices n dagSize i = some (.error .cudaError) ↔
      ∃ d, devices[i]? = some d ∧ d ≠ -1 ∧ totalGlobalMem (min ((n : Int) - 1) d) = none) ∧
    (slotStop totalGlobalMem devices n dagSize i = some (.error .undefinedBehaviour) ↔
      devices.length ≤ i) := by
  unfold slotStop
  split
  · next h => simp [h, List.getElem?_eq_none_iff.mp h]
  · next d h =>
    have hi : i < devices.length := (List.getElem?_eq_some_iff.mp h).1
    simp only [h, Option.some.injEq, exists_eq_left']
    split_ifs with h1
    · split <;> simp_all
    · simp_all

theorem findSome?_range_eq_some {α : Type} {f : Nat → Option α} {r : α} {n : Nat} :
    (List.range n).findSome? f = some r ↔ ∃ i < n, (∀ j < i, f j = none) ∧ f i = some r := by
  rw [List.findSome?_eq_some_iff, List.range_eq_range']
  constructor
  · rintro ⟨l₁, i, l₂, h, hi, hl₁⟩
    obtain ⟨k, hk, rfl, h₂⟩ := List.range'_eq_append_iff.mp h
    obtain ⟨rfl, hk', -⟩ := List.range'_eq_cons_iff.mp h₂.symm
    exact ⟨_, by omega, fun j hj => hl₁ j (List.mem_range'_1.mpr ⟨by omega, by omega⟩), hi⟩
  · rintro ⟨i, hi, hpre, hr⟩
    refine ⟨List.range' 0 i, i, List.range' (i + 1) (n - i - 1), ?_, hr,
      fun j hj => hpre j (by have := (List.mem_range'_1.mp hj).2; omega)⟩
    rw [List.range'_eq_append_iff]
    exact ⟨i, by omega, rfl, by rw [eq_comm, List.range'_eq_cons_iff]; exact ⟨by omega, by omega, rfl⟩⟩

theorem scanDevices_range_eq {devices : List Int} {n dagSize : Nat}
    {r : Except ConfigureFault Bool} (hr : r ≠ .ok true) :
    scanDevices totalGlobalMem devices n dagSize (List.range n) = r ↔
      ∃ i < n, (∀ j < i, SlotFits totalGlobalMem devices n dagSize j) ∧
        slotStop totalGlobalMem devices n dagSize i = some r := by
  simp only [scanDevices_eq_findSome?, ← slotStop_eq_none, ← findSome?_range_eq_some]
  cases (List.range n).findSome? (slotStop totalGlobalMem devices n dagSize) with
  | none => exact iff_of_false (Ne.symm hr) nofun
  | some r' => exact ⟨fun h => congrArg some h, fun h => Option.some.inj h⟩

theorem scanDevices_true_iff (devices : List Int) (n dagSize : Nat) (is : List Nat) :
    scanDevices totalGlobalMem devices n dagSize is = .ok true ↔
      ∀ i ∈ is, SlotFits totalGlobalMem devices n dagSize i := by
  simp only [scanDevices_eq_findSome?, ← slotStop_eq_none, ← List.findSome?_eq_none_iff]
  cases h : is.findSome? (slotStop totalGlobalMem devices n dagSize) with
  | none => simp
  | some r =>
    obtain ⟨i, -, hi⟩ := List.exists_of_findSome?_eq_some h
    exact iff_of_false (fun e => slotStop_ne_true totalGlobalMem devices n dagSize i
      (hi.trans (congrArg some e))) nofun

/-- **How `cuda_configureGPU` ends.** For every device count `n`, device table and property
query, the scan of the slots below `n` returns `true` exactly when every slot is inside the
table and, when set, names (after the clamp to `n - 1`) a device whose query succeeds with room
for the DAG of `_currentBlock`. Otherwise it ends at the first slot that does not: with `false`
when that slot's device is too small, with the `cuda_runtime_error` of a failed
`cudaGetDeviceProperties`, or reading past the end of `s_devices`. -/
theorem cudaConfigureGPU_outcome (n : Nat) (devices : List Int) (currentBlock : Nat) :
    (cudaConfigureGPU totalGlobalMem datasize n devices currentBlock = .ok true ↔
      ∀ i < n, SlotFits totalGlobalMem devices n (datasize currentBlock) i) ∧
    (cudaConfigureGPU totalGlobalMem datasize n devices currentBlock = .ok false ↔
      ∃ i < n, (∀ j < i, SlotFits totalGlobalMem devices n (datasize currentBlock) j) ∧
        ∃ d, devices[i]? = some d ∧ d ≠ -1 ∧
          ∃ m, totalGlobalMem (min ((n : Int) - 1) d) = some m ∧ m < datasize currentBlock) ∧
    (cudaConfigureGPU totalGlobalMem datasize n devices currentBlock = .error .cudaError ↔
      ∃ i < n, (∀ j < i, SlotFits totalGlobalMem devices n (datasize currentBlock) j) ∧
        ∃ d, devices[i]? = some d ∧ d ≠ -1 ∧ totalGlobalMem (min ((n : Int) - 1) d) = none) ∧
    (cudaConfigureGPU totalGlobalMem datasize n devices currentBlock =
        .error .undefinedBehaviour ↔
      ∃ i < n, (∀ j < i, SlotFits totalGlobalMem devices n (datasize currentBlock) j) ∧
        devices.length ≤ i) := by
  rw [cudaConfigureGPU, scanDevices_true_iff, scanDevices_range_eq totalGlobalMem (r := .ok false) nofun,
    scanDevices_range_eq totalGlobalMem (r := .error .cudaError) nofun,
    scanDevices_range_eq totalGlobalMem (r := .error .undefinedBehaviour) nofun]
  simp only [List.mem_range, slotStop_eq_some, true_and]

/-- Device 0 holds 2 GiB and device 1 holds 4 GiB, for a DAG of 3 GiB: the scan of both slots
stops at slot 0 with `false`. With two unset slots and a count of three devices, it reads past the
end of the table. -/
theorem cudaConfigureGPU_outcome_stops :
    cudaConfigureGPU (fun d => if d = 0 then some (2 ^ 31) else some (2 ^ 32))
        (fun _ => 3 * 2 ^ 30) 2 [0, 1] 0 = .ok false ∧
      cudaConfigureGPU (fun _ => some (2 ^ 32)) (fun _ => 3 * 2 ^ 30) 3 [-1, -1] 0 =
        .error .undefinedBehaviour :=
  ⟨(cudaConfigureGPU_outcome (fun d => if d = 0 then some (2 ^ 31) else some (2 ^ 32))
      (fun _ => 3 * 2 ^ 30) 2 [0, 1] 0).2.1.mpr
      ⟨0, by decide, fun j hj => absurd hj (Nat.not_lt_zero j), 0, rfl, by decide, 2 ^ 31, rfl,
        by decide⟩,
    (cudaConfigureGPU_outcome (fun _ => some (2 ^ 32)) (fun _ => 3 * 2 ^ 30) 3 [-1, -1] 0).2.2.2.mpr
      ⟨2, by decide, fun j hj => ⟨-1, by interval_cases j <;> rfl, fun h => absurd rfl h⟩,
        le_rfl⟩⟩

theorem cudaConfigureGPU_true_iff (n : Nat) (devices : List Int) (currentBlock : Nat) :
    cudaConfigureGPU totalGlobalMem datasize n devices currentBlock = .ok true ↔
      n ≤ devices.length ∧ ∀ i < n, ∀ d, devices[i]? = some d → d ≠ -1 →
        ∃ m, totalGlobalMem (min ((n : Int) - 1) d) = some m ∧ datasize currentBlock ≤ m := by
  rw [cudaConfigureGPU, scanDevices_true_iff]
  simp only [List.mem_range]
  constructor
  · intro h
    refine ⟨?_, fun i hi d hd => ?_⟩
    · rcases n with _ | n
      · exact Nat.zero_le _
      · obtain ⟨d, hd, -⟩ := h n (Nat.lt_succ_self n)
        exact (List.getElem?_eq_some_iff.mp hd).1
    · obtain ⟨d', hd', hm⟩ := h i hi
      rw [hd] at hd'
      exact Option.some.inj hd' ▸ hm
  · rintro ⟨hlen, h⟩ i hi
    have hd := List.getElem?_eq_getElem (l := devices) (show i < devices.length by omega)
    exact ⟨_, hd, h i hi _ hd⟩

/-- Slot 0 names device 5 of 2, which the clamp makes device 1; slot 1 is unset. -/
example : cudaConfigureGPU (fun d => if d = 1 then some (2 ^ 32) else none) (fun _ => 2 ^ 30) 2
    [5, -1] 0 = .ok true := rfl

/-! ### From the selection to the device a worker initialises -/

/-- What `setDevices` leaves when it returns: a table of the same length, the first `count`
slots the converted device numbers, the others as they were. -/
theorem setDevices_spec {sDevices sd : List Int} {devices : List Nat} :
    ∀ {count : Nat}, setDevices sDevices devices count = some sd →
      sd.length = sDevices.length ∧ count ≤ devices.length ∧
        ∀ i, sd[i]? = if i < count then (devices[i]?).map toInt32 else sDevices[i]?
  | 0, h => by
    cases h
    exact ⟨rfl, Nat.zero_le _, fun i => by simp⟩
  | count + 1, h => by
    simp only [setDevices, Option.bind_eq_bind, Option.bind_eq_some] at h
    obtain ⟨sd', hsd', d, hd, h⟩ := h
    split_ifs at h with hlt
    cases h
    obtain ⟨hlen, hcount, hget⟩ := setDevices_spec hsd'
    have hc : count < devices.length := (List.getElem?_eq_some_iff.mp hd).1
    refine ⟨by rw [List.length_set, hlen], hc, fun i => ?_⟩
    rw [List.getElem?_set]
    by_cases hi : count = i
    · subst hi
      simp [hlt, hd]
    · rw [if_neg hi, hget i]
      split_ifs <;> first | rfl | omega

theorem toInt32_of_lt {x : Nat} (h : x < 2 ^ 31) : toInt32 x = x := by
  have hx : u32 x = x := Nat.mod_eq_of_lt (by omega)
  rw [toInt32, hx, if_pos h]

theorem cudaInitDevice_of_set {n : Nat} {d : Int} (hn : 0 < n) (hd : 0 ≤ d) :
    (cudaInitDevice n d.toNat : Int) = min ((n : Int) - 1) d := by
  unfold cudaInitDevice
  split_ifs <;> omega

/-- **Every worker with a selected device runs on a checked device.** Take `setDevices` on the
initial table of `MAX_MINERS` unset slots with device numbers below `2 ^ 31`, and a
`configureGPU` whose scan returned `true`. Every worker `index` below `s_numInstances` whose slot
was set then calls `cuda_init` on a device whose properties `configureGPU` read, with room for
the DAG of `_currentBlock`. -/
theorem selected_devices_checked {lg : Nat} {devices : List Nat} {count : Nat} {sd : List Int}
    (hset : setDevices (List.replicate (2 ^ lg) (-1)) devices count = some sd)
    (hdev : ∀ d ∈ devices, d < 2 ^ 31) {numDevices instances : Nat}
    (blockSize gridSize numStreams scheduleFlag currentBlock dagLoadMode dagCreateDevice : Nat)
    (noeval exit : Bool)
    (hok : (configureGPU totalGlobalMem datasize numDevices sd blockSize gridSize numStreams
      scheduleFlag currentBlock dagLoadMode dagCreateDevice noeval exit).2 = .ok true)
    {index : Nat} (hi : index < setNumInstances instances numDevices) (hc : index < count) :
    ∃ dev, initDevice sd index = some dev ∧ ∃ m,
      totalGlobalMem (cudaInitDevice numDevices dev) = some m ∧ datasize currentBlock ≤ m := by
  have hn : index < numDevices := lt_of_lt_of_le hi (min_le_right _ _)
  obtain ⟨-, hcount, hget⟩ := setDevices_spec hset
  have hv := List.getElem?_eq_getElem (l := devices) (show index < devices.length by omega)
  have hslot : sd[index]? = some (devices[index] : Int) := by
    rw [hget, if_pos hc, hv, Option.map_some', toInt32_of_lt (hdev _ (List.getElem_mem _))]
  obtain ⟨-, hscan⟩ := (cudaConfigureGPU_true_iff totalGlobalMem datasize _ _ _).mp hok
  obtain ⟨m, hm, hle⟩ := hscan index hn _ hslot (by omega)
  refine ⟨devices[index], ?_, m, ?_, hle⟩
  · rw [initDevice, hslot, Option.map_some', if_pos (by omega), Int.toNat_natCast]
  rw [← hm, ← cudaInitDevice_of_set (by omega) (Int.natCast_nonneg _), Int.toNat_natCast]

/-- Two devices, the user selecting device 1 for worker 0; device 1 holds 4 GiB, the DAG 1 GiB. -/
theorem selected_devices_checked_one :
    ∃ dev, initDevice [1, -1] 0 = some dev ∧ ∃ m,
      (fun d : Int => if d = 1 then some (2 ^ 32) else none) (cudaInitDevice 2 dev) = some m ∧
        (fun _ : Nat => 2 ^ 30) 0 ≤ m :=
  selected_devices_checked (fun d => if d = 1 then some (2 ^ 32) else none) (fun _ => 2 ^ 30)
    (show setDevices (List.replicate (2 ^ 1) (-1)) [1] 1 = some [1, -1] from rfl) (by simp)
    512 1024 2 0 0 0 0 false false
    (show (configureGPU (fun d => if d = 1 then some (2 ^ 32) else none) (fun _ => 2 ^ 30) 2
      [1, -1] 512 1024 2 0 0 0 0 false false).2 = .ok true from rfl)
    (show 0 < setNumInstances 2 2 by decide) (show 0 < 1 by decide)

end ProgPowMiner.Cuda
