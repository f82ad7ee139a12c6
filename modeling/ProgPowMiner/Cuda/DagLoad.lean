import ProgPowMiner.Cuda.WorkLoop

/-!
# `DAG_LOAD_MODE_SINGLE`: one DAG for all devices

In the single load mode one device, `s_dagCreateDevice`, generates the DAG and copies it into a
host buffer `s_dagInHostMemory`; the others wait for the buffer and copy it into their device.
Each worker's `CUDAMiner::init` then increments `s_dagLoadIndex`, and the worker that finds
`s_dagLoadIndex >= s_numInstances` with the buffer still allocated deletes it.

The workers run concurrently. Each is a program counter over the steps of `init(epoch)` that
touch the shared state: the test `if (!hostDAG)`, the generation (which publishes the buffer),
one 100 ms poll of `while (!hostDAG)`, the copy at `cpyDag`, the increment, the free test and
the delete. A schedule is a list of events: a worker entering `init(epoch)` (its `workLoop` saw a
new epoch) or a worker taking its next step. Worker `w` drives device `w` (the `s_devices` map
is left out), so the creator is the worker `s_dagCreateDevice`; the increment
`s_dagLoadIndex++` is one step, its read and write not interleaved with other workers' steps. Host buffers are tagged with the epoch whose DAG
they hold, and a ghost log records every install, copy and free.

* `first_epoch_dag_load`: when every worker loads one epoch once (the first epoch of a run), every
  interleaving is safe: each copy reads an allocated buffer of that epoch, the buffer is freed
  at most once and only after every worker installed it, and exactly once when all are done.
  The proof is the invariant `FirstEpoch`, one lemma per step of a worker.
* `dag_freed_before_copy`: two workers through epochs 0 and 1. `s_dagLoadIndex` is 2 after the
  first epoch and is never reset, so in the second the generating worker frees the buffer right
  after publishing it: it is freed before the other worker installed it, and that worker, which
  found the buffer allocated, copies from `NULL`.
-/

namespace ProgPowMiner.Cuda

/-- Where a worker is in `CUDAMiner::init(epoch)`. -/
inductive Pc
  | idle
  | test (epoch : Int)
  | generate (epoch : Int)
  | poll (epoch : Int)
  | copy (epoch : Int)
  | increment (epoch : Int)
  | freeTest (epoch : Int)
  | delete (epoch : Int)
deriving DecidableEq, Repr

/-- A worker: its place in `init` and its device. The device's `dagEpoch` is the epoch whose DAG
the device buffer holds, `none` for a buffer never filled or filled from `NULL`. -/
structure Loader where
  pc : Pc
  device : Device

/-- The ghost log: a worker generated an epoch's DAG, a worker initialising `epoch` copied the
host buffer (holding `src`, or `NULL`), a buffer holding `epoch` was freed while the workers
`installedBy` had installed that epoch. -/
inductive DagEvent
  | generated (worker : Nat) (epoch : Int)
  | copied (worker : Nat) (epoch : Int) (src : Option Int)
  | freed (epoch : Int) (installedBy : List Nat)
deriving DecidableEq, Repr

/-- The event installs `epoch`'s DAG on `worker`. -/
def DagEvent.Installs (w : Nat) (epoch : Int) : DagEvent → Bool
  | .generated w' e => w' == w && e == epoch
  | .copied w' _ src => w' == w && src == some epoch
  | .freed _ _ => false

/-- The shared state: `s_dagLoadIndex`, `s_dagInHostMemory` (the buffer it points to), the
allocated host buffers with the epoch each holds, and the workers. -/
structure Host where
  dagLoadIndex : Nat
  hostDag : Option Nat
  buffers : List (Nat × Int)
  nextBuffer : Nat
  loaders : Nat → Loader
  log : List DagEvent

/-- A schedule event: worker `w` enters `init(epoch)`, or takes its next step. -/
inductive Sched
  | init (w : Nat) (epoch : Int)
  | step (w : Nat)

variable (env : Env) (numInstances dagCreateDevice : Nat)

/-- The epoch of the buffer `s_dagInHostMemory` points to. -/
def Host.hostEpoch (h : Host) : Option Int :=
  h.hostDag.bind fun b => (h.buffers.lookup b)

/-- The workers below `s_numInstances` that installed `epoch`, by the log. -/
def Host.installedBy (h : Host) (epoch : Int) : List Nat :=
  (List.range numInstances).filter fun w => h.log.any (DagEvent.Installs w epoch)

/-- `init(epoch)` up to the test of `hostDAG`. `cuda_init` sets up the device as in the other load
modes; when it transfers the DAG (the element count changed), the DAG comes from the steps below
in place of the generation, and the other paths go on to the increment. -/
def Loader.start (d : Loader) (epoch : Int) : Loader :=
  let dev := (d.device.cudaInit env epoch).2
  if dev.streams.isSome then ⟨.test epoch, { dev with dagEpoch := none }⟩
  else ⟨.increment epoch, dev⟩

/-- Worker `w`'s next step. -/
def Host.stepWorker (h : Host) (w : Nat) : Host :=
  let d := h.loaders w
  let set (d' : Loader) : Nat → Loader := Function.update h.loaders w d'
  match d.pc with
  | .idle => h
  | .test e =>
    if h.hostDag.isNone then
      { h with loaders := set { d with
          pc := if w = dagCreateDevice then .generate e else .poll e } }
    else { h with loaders := set { d with pc := .copy e } }
  | .generate e =>
    { h with
      hostDag := some h.nextBuffer
      buffers := h.buffers ++ [(h.nextBuffer, e)]
      nextBuffer := h.nextBuffer + 1
      loaders := set ⟨.increment e, { d.device with dagEpoch := some e }⟩
      log := h.log ++ [.generated w e] }
  | .poll e =>
    if h.hostDag.isNone then h else { h with loaders := set { d with pc := .copy e } }
  | .copy e =>
    { h with
      loaders := set ⟨.increment e, { d.device with dagEpoch := h.hostEpoch }⟩
      log := h.log ++ [.copied w e h.hostEpoch] }
  | .increment e =>
    { h with dagLoadIndex := h.dagLoadIndex + 1, loaders := set { d with pc := .freeTest e } }
  | .freeTest e =>
    { h with loaders := set { d with
        pc := if numInstances ≤ h.dagLoadIndex ∧ h.hostDag.isSome then .delete e else .idle } }
  | .delete _ =>
    match h.hostDag, h.hostEpoch with
    | some b, some e' =>
      { h with
        hostDag := none
        buffers := h.buffers.filter (·.1 ≠ b)
        loaders := set { d with pc := .idle }
        log := h.log ++ [.freed e' (h.installedBy numInstances e')] }
    | _, _ => { h with hostDag := none, loaders := set { d with pc := .idle } }

/-- One schedule event; `init` is taken only by an idle worker. -/
def Host.step (h : Host) : Sched → Host
  | .init w e =>
    if (h.loaders w).pc = .idle then
      { h with loaders := Function.update h.loaders w ((h.loaders w).start env e) }
    else h
  | .step w => h.stepWorker numInstances dagCreateDevice w

def Host.run (h : Host) (sched : List Sched) : Host :=
  sched.foldl (Host.step env numInstances dagCreateDevice) h

/-- The state before any `init`: index 0, no host buffer, every worker idle with no DAG and
`m_dag_elms = dagElms`. -/
def Host.initial (dagElms : Nat) : Host :=
  ⟨0, none, [], 0, fun _ => ⟨.idle, Device.fresh dagElms⟩, []⟩

/-- Two workers, worker 0 the creator, through epoch 0 and then epoch 1 (devices large enough,
the DAG growing with the epoch). Epoch 0 is loaded as intended. In epoch 1 worker 0 publishes
the buffer, increments `s_dagLoadIndex` to 3, passes the free test and is about to delete; worker
1 enters `init(1)`, finds the buffer allocated and goes to copy; worker 0 deletes it, with only
itself having installed epoch 1; worker 1 copies from `NULL`. -/
theorem dag_freed_before_copy :
    ((Host.initial 0).run ⟨fun n => 1000 + n, fun e => e.toNat, 1, 1, 2000⟩ 2 0
      [.init 0 0, .step 0, .step 0, .step 0, .step 0,
        .init 1 0, .step 1, .step 1, .step 1, .step 1, .step 1,
        .init 0 1, .step 0, .step 0, .step 0, .step 0,
        .init 1 1, .step 1, .step 0, .step 1]).log =
      [.generated 0 0, .copied 1 0 (some 0), .freed 0 [0, 1], .generated 0 1, .freed 1 [0],
        .copied 1 1 none] := by
  decide

/-! ### One epoch

Every worker loads the same epoch once. `FirstEpoch` is an invariant of every interleaving of
such a run, and `first_epoch_dag_load` states what it gives once every worker is done: each copy
read an allocated buffer of that epoch, and the buffer was freed exactly once, after every
worker installed it.
-/

/-- The epoch of the `init` a worker is in. -/
def Pc.epoch? : Pc → Option Int
  | .idle => none
  | .test e | .generate e | .poll e | .copy e | .increment e | .freeTest e | .delete e => some e

/-- The worker has incremented `s_dagLoadIndex` in its `init`: it is at the free test or the
delete, or idle with `m_dag_elms` moved from the initial `dagElms` (it has been through an
`init`). -/
def Loader.Incremented (dagElms : Nat) (d : Loader) : Bool :=
  match d.pc with
  | .freeTest _ | .delete _ => true
  | .idle => d.device.dagElms != dagElms
  | _ => false

/-- The worker has its DAG: it is at its increment or past it. -/
def Loader.Installed (dagElms : Nat) (d : Loader) : Bool :=
  match d.pc with
  | .increment _ => true
  | _ => d.Incremented dagElms

/-- The worker has its generation still to come, if it is the creator: before its `init`, at
its test or at the generation. -/
def Loader.Pending (dagElms : Nat) (d : Loader) : Bool :=
  match d.pc with
  | .idle => d.device.dagElms == dagElms
  | .test _ | .generate _ => true
  | _ => false

/-- The worker is idle after an `init`. -/
def Loader.Finished (dagElms : Nat) (d : Loader) : Bool :=
  d.pc == .idle && d.device.dagElms != dagElms

/-- The worker a schedule event moves. -/
def Sched.worker : Sched → Nat
  | .init w _ | .step w => w

/-- The worker an `init` event starts. -/
def Sched.initWorker? : Sched → Option Nat
  | .init w _ => some w
  | .step _ => none

/-- The event is a step, or an `init(e)` of a worker below `s_numInstances`. -/
def Sched.InitsEpoch (numInstances : Nat) (e : Int) : Sched → Bool
  | .init w e' => decide (w < numInstances) && e' == e
  | .step _ => true

/-- The event is a free. -/
def DagEvent.isFreed : DagEvent → Bool
  | .freed _ _ => true
  | _ => false

theorem lookup_of_mem {l : List (Nat × Int)} {b : Nat} {e : Int} (hl : ∀ p ∈ l, p.2 = e)
    (hb : ∃ p ∈ l, p.1 = b) : l.lookup b = some e := by
  induction l with
  | nil => simp at hb
  | cons p l ih =>
    obtain ⟨k, v⟩ := p
    have hv : v = e := hl _ (List.mem_cons_self _ _)
    by_cases hk : b = k
    · simp [List.lookup_cons, hk, hv]
    · have : (b == k) = false := by simpa using hk
      simp only [List.lookup_cons, this]
      refine ih (fun p hp => hl p (List.mem_cons_of_mem _ hp)) ?_
      obtain ⟨p, hp, rfl⟩ := hb
      rcases List.mem_cons.mp hp with rfl | hp
      · exact absurd rfl hk
      · exact ⟨p, hp, rfl⟩

theorem countP_range_update (N w : Nat) (g g' : Nat → Bool) (hg : ∀ v, v ≠ w → g' v = g v) :
    (List.range N).countP g' + (if w < N ∧ g w then 1 else 0) =
      (List.range N).countP g + (if w < N ∧ g' w then 1 else 0) := by
  induction N with
  | zero => simp
  | succ N ih =>
    simp only [List.range_succ, List.countP_append, List.countP_singleton]
    by_cases hN : N = w
    · subst hN
      have h1 : ¬ (N < N ∧ g N = true) := by omega
      have h2 : ¬ (N < N ∧ g' N = true) := by omega
      simp only [h1, h2, if_false] at ih
      cases g N <;> cases g' N <;> simp <;> omega
    · rw [hg N hN]
      by_cases hw : w < N
      · have : w < N + 1 := by omega
        simp only [hw, this, true_and] at ih ⊢
        omega
      · have : ¬ w < N + 1 := by omega
        simp only [hw, this, false_and, if_false] at ih ⊢
        omega

section FirstEpoch

variable {numInstances dagCreateDevice} (d0 : Nat) (e : Int)

/-- The workers' side of the invariant: the workers beyond `s_numInstances` never start, every
`init` is for epoch `e` and has moved `m_dag_elms`, `s_dagLoadIndex` counts the workers past
their increment, only the creator generates, and a worker reaches the delete only when every
worker is past its increment. -/
structure FirstEpoch.Loaders (numInstances dagCreateDevice : Nat) (h : Host) : Prop where
  high : ∀ w, numInstances ≤ w → h.loaders w = ⟨.idle, Device.fresh d0⟩
  epoch : ∀ w e', (h.loaders w).pc.epoch? = some e' → e' = e
  started : ∀ w, (h.loaders w).pc ≠ .idle → (h.loaders w).device.dagElms ≠ d0
  index : h.dagLoadIndex =
    (List.range numInstances).countP fun w => (h.loaders w).Incremented d0
  generate : ∀ w e', (h.loaders w).pc = .generate e' → w = dagCreateDevice
  delete : ∀ v e', (h.loaders v).pc = .delete e' →
    ∀ w < numInstances, (h.loaders w).Incremented d0

/-- The invariant of a run in which every worker loads epoch `e` once. -/
structure FirstEpoch (numInstances dagCreateDevice : Nat) (h : Host)
    extends FirstEpoch.Loaders d0 e numInstances dagCreateDevice h : Prop where
  buffers : ∀ p ∈ h.buffers, p.2 = e
  host : ∀ b, h.hostDag = some b → ∃ p ∈ h.buffers, p.1 = b
  copy : ∀ w e', (h.loaders w).pc = .copy e' → h.hostDag.isSome
  installed : ∀ w < numInstances, (h.loaders w).Installed d0 → h.log.any (DagEvent.Installs w e)
  copied : ∀ w e' src, DagEvent.copied w e' src ∈ h.log → e' = e ∧ src = some e
  freed : ∀ e' ws, DagEvent.freed e' ws ∈ h.log → e' = e ∧ ws = List.range numInstances
  creator : ∀ e', (h.loaders dagCreateDevice).pc ≠ .poll e' ∧
    (h.loaders dagCreateDevice).pc ≠ .copy e'
  /-- The creator's generation still to come, the published buffer and the frees so far
  number exactly one. -/
  tokens : (h.log.filter DagEvent.isFreed).length + (if h.hostDag.isSome then 1 else 0) +
    (if (h.loaders dagCreateDevice).Pending d0 then 1 else 0) = 1
  /-- A published buffer has a worker yet to pass its free test. -/
  leak : h.hostDag.isSome → ∃ w < numInstances, (h.loaders w).Finished d0 = false

variable {d0 e} {h : Host}

theorem FirstEpoch.initial : FirstEpoch d0 e numInstances dagCreateDevice (Host.initial d0) where
  high _ _ := rfl
  epoch _ _ h := by simp [Host.initial, Pc.epoch?] at h
  started _ h := absurd rfl h
  index := by simp [Host.initial, Loader.Incremented, Device.fresh]
  generate _ _ h := by simp [Host.initial] at h
  delete _ _ h := by simp [Host.initial] at h
  buffers _ h := by simp [Host.initial] at h
  host _ h := by simp [Host.initial] at h
  copy _ _ h := by simp [Host.initial] at h
  installed _ _ h := by simp [Host.initial, Loader.Installed, Loader.Incremented, Device.fresh] at h
  copied _ _ _ h := by simp [Host.initial] at h
  freed _ _ h := by simp [Host.initial] at h
  creator _ := by simp [Host.initial]
  tokens := by simp [Host.initial, Loader.Pending, Device.fresh]
  leak h := by simp [Host.initial] at h

theorem FirstEpoch.Loaders.lt (hi : FirstEpoch.Loaders d0 e numInstances dagCreateDevice h)
    {w : Nat} (hw : (h.loaders w).pc ≠ .idle) : w < numInstances := by
  by_contra hn
  exact hw (by rw [hi.high w (by omega)])

theorem FirstEpoch.Loaders.all_incremented
    (hi : FirstEpoch.Loaders d0 e numInstances dagCreateDevice h)
    (hn : numInstances ≤ h.dagLoadIndex) : ∀ w < numInstances, (h.loaders w).Incremented d0 := by
  have hall : ∀ w ∈ List.range numInstances, (h.loaders w).Incremented d0 := by
    refine List.countP_eq_length.mp (le_antisymm (List.countP_le_length _) ?_)
    rw [List.length_range, ← hi.index]
    exact hn
  exact fun w hw => hall w (List.mem_range.mpr hw)

theorem FirstEpoch.hostEpoch (hi : FirstEpoch d0 e numInstances dagCreateDevice h) {b : Nat}
    (hb : h.hostDag = some b) : h.hostEpoch = some e := by
  simp only [Host.hostEpoch, hb, Option.some_bind]
  exact lookup_of_mem hi.buffers (hi.host b hb)

theorem FirstEpoch.Loaders.update (hi : FirstEpoch.Loaders d0 e numInstances dagCreateDevice h)
    {h' : Host} {w : Nat} {d' : Loader} (hl : h'.loaders = Function.update h.loaders w d')
    (hw : w < numInstances) (hst : d'.pc ≠ .idle → d'.device.dagElms ≠ d0)
    (hep : ∀ e', d'.pc.epoch? = some e' → e' = e)
    (hmono : (h.loaders w).Incremented d0 → d'.Incremented d0)
    (hk : h'.dagLoadIndex + (if (h.loaders w).Incremented d0 then 1 else 0) =
      h.dagLoadIndex + (if d'.Incremented d0 then 1 else 0))
    (hgen : ∀ e', d'.pc = .generate e' → w = dagCreateDevice)
    (hdel : ∀ e', d'.pc = .delete e' → ∀ v < numInstances, v ≠ w → (h.loaders v).Incremented d0) :
    FirstEpoch.Loaders d0 e numInstances dagCreateDevice h' := by
  have upd (v : Nat) : h'.loaders v = if v = w then d' else h.loaders v := by
    rw [hl, Function.update_apply]
  constructor <;> simp only [upd]
  · intro v hv
    rw [if_neg (by omega)]
    exact hi.high v hv
  · intro v e'
    split_ifs
    exacts [hep e', hi.epoch v e']
  · intro v
    split_ifs
    exacts [hst, hi.started v]
  · have := countP_range_update numInstances w (fun v => (h.loaders v).Incremented d0)
      (fun v => (if v = w then d' else h.loaders v).Incremented d0)
      (fun v hv => by simp only [if_neg hv])
    simp only [if_true, hw, true_and] at this
    rw [hi.index] at hk
    omega
  · intro v e'
    split_ifs with hv
    · subst hv
      exact hgen e'
    · exact hi.generate v e'
  · intro v e' hv u hu
    split_ifs at hv with hvw <;> split_ifs with huw
    · simp [Loader.Incremented, hv]
    · exact hdel e' hv u hu huw
    · subst huw
      exact hmono (hi.delete v e' hv _ hu)
    · exact hi.delete v e' hv u hu

theorem FirstEpoch.update (hi : FirstEpoch d0 e numInstances dagCreateDevice h) {w : Nat}
    {d' : Loader} (k : Nat) (hw : w < numInstances)
    (hst : d'.pc ≠ .idle → d'.device.dagElms ≠ d0)
    (hep : ∀ e', d'.pc.epoch? = some e' → e' = e)
    (hmono : (h.loaders w).Incremented d0 → d'.Incremented d0)
    (hk : k + (if (h.loaders w).Incremented d0 then 1 else 0) =
      h.dagLoadIndex + (if d'.Incremented d0 then 1 else 0))
    (hcopy : ∀ e', d'.pc = .copy e' → h.hostDag.isSome)
    (hgen : ∀ e', d'.pc = .generate e' → w = dagCreateDevice)
    (hdel : ∀ e', d'.pc = .delete e' → ∀ v < numInstances, v ≠ w → (h.loaders v).Incremented d0)
    (hinst : d'.Installed d0 → (h.loaders w).Installed d0)
    (hcreator : w = dagCreateDevice → ∀ e', d'.pc ≠ .poll e' ∧ d'.pc ≠ .copy e')
    (hpend : w = dagCreateDevice → d'.Pending d0 = (h.loaders w).Pending d0)
    (hfin : d'.Finished d0 → h.hostDag.isSome →
      ∃ u < numInstances, u ≠ w ∧ (h.loaders u).Finished d0 = false) :
    FirstEpoch d0 e numInstances dagCreateDevice
      { h with dagLoadIndex := k, loaders := Function.update h.loaders w d' } := by
  have upd (v : Nat) : Function.update h.loaders w d' v = if v = w then d' else h.loaders v :=
    Function.update_apply _ _ _ _
  refine ⟨hi.toLoaders.update rfl hw hst hep hmono hk hgen hdel, hi.buffers, hi.host, ?_, ?_,
    hi.copied, hi.freed, ?_, ?_, ?_⟩ <;> dsimp only <;> simp only [upd]
  · intro v e'
    split_ifs
    exacts [hcopy e', hi.copy v e']
  · intro u hu
    split_ifs with huw
    · subst huw
      exact fun h => hi.installed u hu (hinst h)
    · exact hi.installed u hu
  · intro e'
    split_ifs with hcw
    · subst hcw
      exact hcreator rfl e'
    · exact hi.creator e'
  · by_cases hcw : dagCreateDevice = w
    · subst hcw
      rw [if_pos rfl, hpend rfl]
      exact hi.tokens
    · rw [if_neg hcw]
      exact hi.tokens
  · intro hs
    by_cases hf : d'.Finished d0
    · obtain ⟨u, hu, huw, hfu⟩ := hfin hf hs
      exact ⟨u, hu, by rwa [if_neg huw]⟩
    · exact ⟨w, hw, by simpa using hf⟩

theorem FirstEpoch.installed_append (hi : FirstEpoch d0 e numInstances dagCreateDevice h)
    {w : Nat} {d' : Loader} {ev : DagEvent} (hev : ev.Installs w e) :
    ∀ u < numInstances, (Function.update h.loaders w d' u).Installed d0 →
      (h.log ++ [ev]).any (DagEvent.Installs u e) := by
  intro u hu hins
  rw [List.any_append, Bool.or_eq_true]
  by_cases huw : u = w
  · subst huw
    simp [hev]
  · rw [Function.update_noteq huw] at hins
    exact .inl (hi.installed u hu hins)

theorem FirstEpoch.copied_append (hi : FirstEpoch d0 e numInstances dagCreateDevice h)
    {ev : DagEvent} (hev : ∀ w e' src, ev = .copied w e' src → e' = e ∧ src = some e) :
    ∀ w e' src, DagEvent.copied w e' src ∈ h.log ++ [ev] → e' = e ∧ src = some e := by
  intro w e' src hmem
  rcases List.mem_append.mp hmem with hmem | hmem
  · exact hi.copied _ _ _ hmem
  · exact hev _ _ _ (List.mem_singleton.mp hmem).symm

theorem FirstEpoch.freed_append (hi : FirstEpoch d0 e numInstances dagCreateDevice h)
    {ev : DagEvent} (hev : ∀ e' ws, ev = .freed e' ws → e' = e ∧ ws = List.range numInstances) :
    ∀ e' ws, DagEvent.freed e' ws ∈ h.log ++ [ev] → e' = e ∧ ws = List.range numInstances := by
  intro e' ws hmem
  rcases List.mem_append.mp hmem with hmem | hmem
  · exact hi.freed _ _ hmem
  · exact hev _ _ (List.mem_singleton.mp hmem).symm

theorem Loader.installed_of_incremented {d0 : Nat} {d : Loader} (h : d.Incremented d0) :
    d.Installed d0 := by
  cases hp : d.pc <;> simp_all [Loader.Installed, Loader.Incremented]

theorem FirstEpoch.Loaders.exists_not_incremented
    (hi : FirstEpoch.Loaders d0 e numInstances dagCreateDevice h)
    (hlt : h.dagLoadIndex < numInstances) :
    ∃ u < numInstances, (h.loaders u).Incremented d0 = false := by
  by_contra hne
  have hall : ∀ u ∈ List.range numInstances, (h.loaders u).Incremented d0 := fun u hu => by
    by_contra hu'
    exact hne ⟨u, List.mem_range.mp hu, by simpa using hu'⟩
  have := List.countP_eq_length.mpr hall
  rw [List.length_range, ← hi.index] at this
  omega

theorem Loader.incremented_of_finished {d0 : Nat} {d : Loader} (h : d.Finished d0) :
    d.Incremented d0 := by
  simp only [Loader.Finished, Bool.and_eq_true, beq_iff_eq] at h
  simp [Loader.Incremented, h.1, h.2]

theorem FirstEpoch.step_test (hi : FirstEpoch d0 e numInstances dagCreateDevice h) {w : Nat}
    (hpc : (h.loaders w).pc = Pc.test e) :
    FirstEpoch d0 e numInstances dagCreateDevice (h.stepWorker numInstances dagCreateDevice w) := by
  have hne : (h.loaders w).pc ≠ .idle := by simp [hpc]
  have hw := hi.lt hne
  have hst := hi.started w hne
  simp only [Host.stepWorker, hpc]
  split_ifs with hn hc
  · exact hi.update _ hw (fun _ => hst) (by simp [Pc.epoch?]) (by simp [Loader.Incremented, hpc])
      (by simp [Loader.Incremented, hpc]) (by simp) (fun _ _ => hc) (by simp)
      (by simp [Loader.Installed, Loader.Incremented]) (by simp)
      (by simp [Loader.Pending, hpc]) (by simp [Loader.Finished])
  · exact hi.update _ hw (fun _ => hst) (by simp [Pc.epoch?]) (by simp [Loader.Incremented, hpc])
      (by simp [Loader.Incremented, hpc]) (by simp) (by simp) (by simp)
      (by simp [Loader.Installed, Loader.Incremented]) (fun h => absurd h hc)
      (fun h => absurd h hc) (by simp [Loader.Finished])
  · -- a published buffer means the creator's generation is done: the creator never copies
    have hsome := Option.ne_none_iff_isSome.mp (by simpa using hn)
    have hcw : w ≠ dagCreateDevice := fun hcw => by
      have ht := hi.tokens
      rw [← hcw] at ht
      simp [hsome, Loader.Pending, hpc] at ht
    exact hi.update _ hw (fun _ => hst) (by simp [Pc.epoch?]) (by simp [Loader.Incremented, hpc])
      (by simp [Loader.Incremented, hpc]) (fun _ _ => hsome) (by simp) (by simp)
      (by simp [Loader.Installed, Loader.Incremented]) (fun h => absurd h hcw)
      (fun h => absurd h hcw) (by simp [Loader.Finished])

theorem FirstEpoch.step_generate (hi : FirstEpoch d0 e numInstances dagCreateDevice h) {w : Nat}
    (hpc : (h.loaders w).pc = Pc.generate e) :
    FirstEpoch d0 e numInstances dagCreateDevice (h.stepWorker numInstances dagCreateDevice w) := by
  have hne : (h.loaders w).pc ≠ .idle := by simp [hpc]
  have hw := hi.lt hne
  have hst := hi.started w hne
  have upd (v : Nat) : ∀ d', Function.update h.loaders w d' v = if v = w then d' else h.loaders v :=
    fun _ => Function.update_apply _ _ _ _
  simp only [Host.stepWorker, hpc]
  have hp : (h.loaders w).Pending d0 = true := by simp [Loader.Pending, hpc]
  have ht := hi.tokens
  obtain rfl := hi.generate w e hpc
  rw [hp, if_pos rfl] at ht
  refine ⟨hi.toLoaders.update rfl hw (fun _ => hst) (by simp [Pc.epoch?])
    (by simp [Loader.Incremented, hpc]) (by simp [Loader.Incremented, hpc]) (by simp) (by simp),
    ?_, ?_, fun _ _ _ => rfl, hi.installed_append (by simp [DagEvent.Installs]),
    hi.copied_append (by simp), hi.freed_append (by simp), by simp, ?_,
    fun _ => ⟨_, hw, by simp [Loader.Finished]⟩⟩ <;> dsimp only
  · intro p hp
    rcases List.mem_append.mp hp with hp | hp
    · exact hi.buffers p hp
    · rw [List.mem_singleton.mp hp]
  · rintro b ⟨⟩
    exact ⟨_, List.mem_append_right _ (List.mem_singleton_self _), rfl⟩
  · simp only [List.filter_append, List.length_append, List.filter, DagEvent.isFreed,
      List.length_nil, Option.isSome_some, Function.update_same, Loader.Pending, ↓reduceIte,
      Bool.false_eq_true]
    omega

theorem FirstEpoch.step_poll (hi : FirstEpoch d0 e numInstances dagCreateDevice h) {w : Nat}
    (hpc : (h.loaders w).pc = Pc.poll e) :
    FirstEpoch d0 e numInstances dagCreateDevice (h.stepWorker numInstances dagCreateDevice w) := by
  have hne : (h.loaders w).pc ≠ .idle := by simp [hpc]
  have hw := hi.lt hne
  have hst := hi.started w hne
  simp only [Host.stepWorker, hpc]
  have hcw : w ≠ dagCreateDevice := fun hcw => (hi.creator e).1 (hcw ▸ hpc)
  split_ifs with hn
  · exact hi
  · exact hi.update _ hw (fun _ => hst) (by simp [Pc.epoch?]) (by simp [Loader.Incremented, hpc])
      (by simp [Loader.Incremented, hpc])
      (fun _ _ => Option.ne_none_iff_isSome.mp (by simpa using hn))
      (by simp) (by simp) (by simp [Loader.Installed, Loader.Incremented])
      (fun h => absurd h hcw) (fun h => absurd h hcw) (by simp [Loader.Finished])

theorem FirstEpoch.step_copy (hi : FirstEpoch d0 e numInstances dagCreateDevice h) {w : Nat}
    (hpc : (h.loaders w).pc = Pc.copy e) :
    FirstEpoch d0 e numInstances dagCreateDevice (h.stepWorker numInstances dagCreateDevice w) := by
  have hne : (h.loaders w).pc ≠ .idle := by simp [hpc]
  have hw := hi.lt hne
  have hst := hi.started w hne
  have upd (v : Nat) : ∀ d', Function.update h.loaders w d' v = if v = w then d' else h.loaders v :=
    fun _ => Function.update_apply _ _ _ _
  simp only [Host.stepWorker, hpc]
  have hcw : w ≠ dagCreateDevice := fun hcw => (hi.creator e).2 (hcw ▸ hpc)
  obtain ⟨b, hb⟩ := Option.isSome_iff_exists.mp (hi.copy w e hpc)
  rw [hi.hostEpoch hb]
  refine ⟨hi.toLoaders.update rfl hw (fun _ => hst) (by simp [Pc.epoch?])
    (by simp [Loader.Incremented, hpc]) (by simp [Loader.Incremented, hpc]) (by simp) (by simp),
    hi.buffers, hi.host, ?_, hi.installed_append (by simp [DagEvent.Installs]),
    hi.copied_append (by simp), hi.freed_append (by simp), ?_, ?_,
    fun _ => ⟨w, hw, by simp [upd, Loader.Finished]⟩⟩ <;> dsimp only
  · intro v e'' hv
    rw [upd] at hv
    split_ifs at hv
    exact hi.copy v e'' hv
  · simpa [upd, Ne.symm hcw] using hi.creator
  · simpa [List.filter_append, List.filter, DagEvent.isFreed, upd, Ne.symm hcw] using hi.tokens

theorem FirstEpoch.step_increment (hi : FirstEpoch d0 e numInstances dagCreateDevice h) {w : Nat}
    (hpc : (h.loaders w).pc = Pc.increment e) :
    FirstEpoch d0 e numInstances dagCreateDevice (h.stepWorker numInstances dagCreateDevice w) := by
  have hne : (h.loaders w).pc ≠ .idle := by simp [hpc]
  have hw := hi.lt hne
  have hst := hi.started w hne
  simp only [Host.stepWorker, hpc]
  exact hi.update _ hw (fun _ => hst) (by simp [Pc.epoch?]) (by simp [Loader.Incremented])
    (by simp [Loader.Incremented, hpc]) (by simp) (by simp) (by simp)
    (by simp [Loader.Installed, Loader.Incremented, hpc]) (by simp)
    (by simp [Loader.Pending, hpc]) (by simp [Loader.Finished])

theorem FirstEpoch.step_freeTest (hi : FirstEpoch d0 e numInstances dagCreateDevice h) {w : Nat}
    (hpc : (h.loaders w).pc = Pc.freeTest e) :
    FirstEpoch d0 e numInstances dagCreateDevice (h.stepWorker numInstances dagCreateDevice w) := by
  have hne : (h.loaders w).pc ≠ .idle := by simp [hpc]
  have hw := hi.lt hne
  have hst := hi.started w hne
  simp only [Host.stepWorker, hpc]
  split_ifs with hfree
  · exact hi.update _ hw (fun _ => hst) (by simp [Pc.epoch?]) (by simp [Loader.Incremented])
      (by simp [Loader.Incremented, hpc]) (by simp) (by simp)
      (fun _ _ v hv _ => hi.all_incremented hfree.1 v hv)
      (by simp [Loader.Installed, Loader.Incremented, hpc]) (by simp)
      (by simp [Loader.Pending, hpc]) (by simp [Loader.Finished])
  · refine hi.update _ hw (fun h => absurd rfl h) (by simp [Pc.epoch?])
      (by simp [Loader.Incremented, hst]) (by simp [Loader.Incremented, hpc, hst]) (by simp)
      (by simp) (by simp) (by simp [Loader.Installed, Loader.Incremented, hpc]) (by simp)
      (by simp [Loader.Pending, hpc, hst]) fun _ hs => ?_
    obtain ⟨u, hu, hinc⟩ := hi.exists_not_incremented (by
      by_contra hn
      exact hfree ⟨by omega, hs⟩)
    refine ⟨u, hu, fun huw => ?_, ?_⟩
    · subst huw
      simp [Loader.Incremented, hpc] at hinc
    · by_contra hf
      have := Loader.incremented_of_finished (by simpa using hf)
      rw [hinc] at this
      exact absurd this Bool.false_ne_true

theorem FirstEpoch.step_delete (hi : FirstEpoch d0 e numInstances dagCreateDevice h) {w : Nat}
    (hpc : (h.loaders w).pc = Pc.delete e) :
    FirstEpoch d0 e numInstances dagCreateDevice (h.stepWorker numInstances dagCreateDevice w) := by
  have hne : (h.loaders w).pc ≠ .idle := by simp [hpc]
  have hw := hi.lt hne
  have hst := hi.started w hne
  have upd (v : Nat) : ∀ d', Function.update h.loaders w d' v = if v = w then d' else h.loaders v :=
    fun _ => Function.update_apply _ _ _ _
  simp only [Host.stepWorker, hpc]
  have hall := hi.delete w e hpc
  have hidle : Loader.Incremented d0 ⟨.idle, (h.loaders w).device⟩ := by
    simp [Loader.Incremented, hst]
  have hpend : Loader.Pending d0 ⟨.idle, (h.loaders w).device⟩ = false := by
    simp [Loader.Pending, hst]
  have hnocopy : ∀ v e'', (h.loaders v).pc ≠ .copy e'' := by
    intro v e'' hv
    have := hall v (hi.lt (by simp [hv]))
    simp [Loader.Incremented, hv] at this
  have hL := fun {h' : Host} (hl : h'.loaders = _) (hk : h'.dagLoadIndex = h.dagLoadIndex) =>
    hi.toLoaders.update hl hw (fun h => absurd rfl h) (by simp [Pc.epoch?]) (fun _ => hidle)
      (by simp [Loader.Incremented, hpc, hk, hst]) (by simp) (by simp)
  split
  · rename_i b e'' hb he''
    obtain rfl : e = e'' := by
      rw [hi.hostEpoch hb] at he''
      exact Option.some.inj he''
    have hinst (u : Nat) (hu : u < numInstances) : h.log.any (DagEvent.Installs u e) :=
      hi.installed u hu (Loader.installed_of_incremented (hall u hu))
    refine ⟨hL rfl rfl, fun p hp => hi.buffers p (List.mem_filter.mp hp).1, by rintro _ ⟨⟩, ?_,
      fun u hu _ => by simp [hinst u hu], hi.copied_append (by simp),
      hi.freed_append fun _ _ hev => ?_, ?_, ?_, fun h => by simp at h⟩ <;> dsimp only
    · intro v e'' hv
      rw [upd] at hv
      split_ifs at hv
      exact absurd hv (hnocopy v e'')
    · obtain ⟨rfl, rfl⟩ := DagEvent.freed.inj hev
      exact ⟨rfl, List.filter_eq_self.mpr fun u hu => hinst u (List.mem_range.mp hu)⟩
    · intro e''
      rw [upd]
      split_ifs
      · simp
      · exact hi.creator e''
    · have ht := hi.tokens
      simp only [hb, Option.isSome_some, ↓reduceIte] at ht
      simp only [List.filter_append, List.length_append, List.filter, DagEvent.isFreed,
        List.length_singleton, Option.isSome_none, Bool.false_eq_true, ↓reduceIte, upd]
      by_cases hcw : dagCreateDevice = w
      · subst hcw
        rw [if_pos rfl, hpend]
        simpa [Loader.Pending, hpc] using ht
      · simp only [if_neg hcw]
        omega
  · rename_i hnot
    have hnone : h.hostDag = none := by
      cases hb : h.hostDag with
      | none => rfl
      | some b => exact (hnot b e hb (hi.hostEpoch hb)).elim
    convert hi.update h.dagLoadIndex hw (fun h => absurd rfl h) (by simp [Pc.epoch?])
      (fun _ => hidle) (by simp [Loader.Incremented, hpc, hst]) (by simp) (by simp) (by simp)
      (by simp [Loader.Installed, Loader.Incremented, hpc]) (by simp)
      (fun _ => by simp [Loader.Pending, hst, hpc]) (fun _ hs => by simp [hnone] at hs)
      using 2
    exact hnone.symm

/-- **Each step keeps the invariant.** -/
theorem FirstEpoch.stepWorker (hi : FirstEpoch d0 e numInstances dagCreateDevice h) (w : Nat) :
    FirstEpoch d0 e numInstances dagCreateDevice (h.stepWorker numInstances dagCreateDevice w) := by
  rcases hpc : (h.loaders w).pc with _ | e' | e' | e' | e' | e' | e' | e'
  · simpa only [Host.stepWorker, hpc] using hi
  all_goals obtain rfl := hi.epoch w e' (by simp [hpc, Pc.epoch?])
  exacts [hi.step_test hpc, hi.step_generate hpc, hi.step_poll hpc, hi.step_copy hpc,
    hi.step_increment hpc, hi.step_freeTest hpc, hi.step_delete hpc]

theorem Host.stepWorker_loaders_ne (h : Host) {v w : Nat} (hvw : v ≠ w) :
    (h.stepWorker numInstances dagCreateDevice w).loaders v = h.loaders v := by
  simp only [Host.stepWorker]
  split <;> (try split) <;> (try split) <;> simp [Function.update_noteq hvw]

theorem Host.stepWorker_idle {h : Host} {w : Nat} (hw : (h.loaders w).pc = .idle) :
    h.stepWorker numInstances dagCreateDevice w = h := by
  simp [Host.stepWorker, hw]

section Start

variable (hdev : 0 < env.numDevices)
  (hmem : env.datasize (env.lightBlock e) ≤ env.totalGlobalMem)
  (helms : env.dagElms (env.datasize (env.lightBlock e)) ≠ d0)

include hdev hmem helms in
theorem Loader.start_fresh :
    ((⟨.idle, Device.fresh d0⟩ : Loader).start env e).pc = .test e ∧
      ((⟨.idle, Device.fresh d0⟩ : Loader).start env e).device.dagElms ≠ d0 := by
  have h1 : ¬ env.numDevices = 0 := by omega
  have h2 : ¬ env.totalGlobalMem < env.datasize (env.lightBlock e) := by omega
  simp [Loader.start, Device.cudaInit, Device.fresh, h1, h2, helms]

include hdev hmem helms in
theorem FirstEpoch.init (hi : FirstEpoch d0 e numInstances dagCreateDevice h) {w : Nat}
    (hw : w < numInstances) (hf : h.loaders w = ⟨.idle, Device.fresh d0⟩) :
    FirstEpoch d0 e numInstances dagCreateDevice
      (h.step env numInstances dagCreateDevice (.init w e)) := by
  obtain ⟨hpc, hel⟩ := Loader.start_fresh env hdev hmem helms
  have hinc : (h.loaders w).Incremented d0 = false := by simp [hf, Loader.Incremented, Device.fresh]
  have hpend : (h.loaders w).Pending d0 = true := by simp [hf, Loader.Pending, Device.fresh]
  have hinc' : ((⟨.idle, Device.fresh d0⟩ : Loader).start env e).Incremented d0 = false := by
    simp [Loader.Incremented, hpc]
  have hpend' : ((⟨.idle, Device.fresh d0⟩ : Loader).start env e).Pending d0 = true := by
    simp [Loader.Pending, hpc]
  simp only [Host.step, hf, if_true]
  exact hi.update _ hw (fun _ => hel) (by simp [hpc, Pc.epoch?]) (by simp [hinc])
    (by simp [hinc, hinc']) (by simp [hpc]) (by simp [hpc]) (by simp [hpc])
    (by simp [Loader.Installed, Loader.Incremented, hpc]) (by simp [hpc])
    (fun _ => hpend'.trans hpend.symm) (by simp [Loader.Finished, hpc])

theorem Host.step_loaders_ne (h : Host) {v : Nat} (ev : Sched) (hv : v ≠ ev.worker) :
    (h.step env numInstances dagCreateDevice ev).loaders v = h.loaders v := by
  cases ev with
  | init w e' =>
    simp only [Sched.worker] at hv
    simp only [Host.step]
    split <;> simp [Function.update_noteq hv]
  | step w => exact h.stepWorker_loaders_ne hv

include hdev hmem helms in
/-- Every run in which each worker below `s_numInstances` enters `init(e)` at most once, from a
state where those workers have not started, keeps the invariant. -/
theorem FirstEpoch.run (hi : FirstEpoch d0 e numInstances dagCreateDevice h) (sched : List Sched)
    (hs : sched.all (Sched.InitsEpoch numInstances e))
    (hnd : (sched.filterMap Sched.initWorker?).Nodup)
    (hfresh : ∀ w ∈ sched.filterMap Sched.initWorker?, h.loaders w = ⟨.idle, Device.fresh d0⟩) :
    FirstEpoch d0 e numInstances dagCreateDevice
      (h.run env numInstances dagCreateDevice sched) := by
  induction sched generalizing h with
  | nil => exact hi
  | cons ev sched ih =>
    simp only [List.all_cons, Bool.and_eq_true] at hs
    cases ev with
    | init w e' =>
      simp only [Sched.InitsEpoch, Bool.and_eq_true, decide_eq_true_eq, beq_iff_eq] at hs
      obtain ⟨⟨hw, rfl⟩, hs⟩ := hs
      simp only [List.filterMap_cons, Sched.initWorker?, List.nodup_cons, List.mem_cons,
        forall_eq_or_imp] at hnd hfresh
      refine ih (hi.init env hdev hmem helms hw hfresh.1) hs hnd.2 fun v hv => ?_
      have hvw : v ≠ w := fun hvw => hnd.1 (hvw ▸ hv)
      rw [Host.step_loaders_ne env h (.init w _) hvw]
      exact hfresh.2 v hv
    | step w =>
      simp only [List.filterMap_cons, Sched.initWorker?] at hnd hfresh
      refine ih (hi.stepWorker w) hs.2 hnd fun v hv => ?_
      by_cases hvw : v = w
      · subst hvw
        simp only [Host.step, Host.stepWorker_idle (by rw [hfresh v hv])]
        exact hfresh v hv
      · rw [Host.step_loaders_ne env h (.step w) hvw]
        exact hfresh v hv

end Start

/-- **Loading one epoch is safe.** In `DAG_LOAD_MODE_SINGLE`, over every interleaving of the
workers' steps in which each worker below `s_numInstances` runs `init(e)` at most once, on
devices large enough for the DAG and with a DAG size that differs from the initial
`m_dag_elms`: every copy reads an allocated buffer holding epoch `e`'s DAG, every free comes
after all `s_numInstances` workers installed it, there is at most one free, and once every
worker has finished its `init` (with the creator among them) there has been exactly one. -/
theorem first_epoch_dag_load (env : Env) (numInstances dagCreateDevice d0 : Nat) (e : Int)
    (hdev : 0 < env.numDevices) (hmem : env.datasize (env.lightBlock e) ≤ env.totalGlobalMem)
    (helms : env.dagElms (env.datasize (env.lightBlock e)) ≠ d0) (sched : List Sched)
    (hs : sched.all (Sched.InitsEpoch numInstances e))
    (hnd : (sched.filterMap Sched.initWorker?).Nodup) {h : Host}
    (hrun : (Host.initial d0).run env numInstances dagCreateDevice sched = h) :
    (∀ w e' src, DagEvent.copied w e' src ∈ h.log → e' = e ∧ src = some e) ∧
    (∀ e' ws, DagEvent.freed e' ws ∈ h.log → e' = e ∧ ws = List.range numInstances) ∧
    (h.log.filter DagEvent.isFreed).length ≤ 1 ∧
    (dagCreateDevice < numInstances → (∀ w < numInstances, (h.loaders w).Finished d0) →
      (h.log.filter DagEvent.isFreed).length = 1) := by
  subst hrun
  have hi0 : FirstEpoch d0 e numInstances dagCreateDevice (Host.initial d0) := FirstEpoch.initial
  have hi := hi0.run env hdev hmem helms sched hs hnd fun _ _ => rfl
  have ht := hi.tokens
  refine ⟨hi.copied, hi.freed, by omega, fun hc hall => ?_⟩
  have hnone : ((Host.initial d0).run env numInstances dagCreateDevice sched).hostDag.isSome =
      false := Bool.eq_false_iff.mpr fun hsome => by
    obtain ⟨w, hw, hf⟩ := hi.leak hsome
    simp [hall w hw] at hf
  have hpend := hall dagCreateDevice hc
  simp only [Loader.Finished, Bool.and_eq_true, beq_iff_eq, bne_iff_ne] at hpend
  simp [hnone, Loader.Pending, hpend.1, hpend.2] at ht
  omega

end FirstEpoch

/-- Two workers load epoch 0 interleaved: worker 1 polls until worker 0 publishes the buffer,
copies it, and frees it after both have incremented. -/
theorem first_epoch_dag_load_interleaved :
    ∃ h, (Host.initial 0).run ⟨fun n => 1000 + n, fun e => e.toNat, 1, 1, 2000⟩ 2 0
        [.init 0 0, .init 1 0, .step 1, .step 0, .step 1, .step 0, .step 1, .step 1, .step 0,
          .step 0, .step 1, .step 1, .step 0, .step 1] = h ∧
      (∀ w e' src, DagEvent.copied w e' src ∈ h.log → e' = 0 ∧ src = some 0) ∧
      (∀ e' ws, DagEvent.freed e' ws ∈ h.log → e' = 0 ∧ ws = List.range 2) ∧
      (h.log.filter DagEvent.isFreed).length ≤ 1 ∧
      (0 < 2 → (∀ w < 2, (h.loaders w).Finished 0) → (h.log.filter DagEvent.isFreed).length = 1) :=
  ⟨_, rfl, first_epoch_dag_load ⟨fun n => 1000 + n, fun e => e.toNat, 1, 1, 2000⟩ 2 0 0 0
    (by decide) (by decide) (by decide) _ (by decide) (by decide) rfl⟩

end ProgPowMiner.Cuda
