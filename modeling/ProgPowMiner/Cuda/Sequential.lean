import ProgPowMiner.Work
import Mathlib.Data.List.Nodup
import Mathlib.Logic.Function.Basic

/-!
# `DAG_LOAD_MODE_SEQUENTIAL`

In the sequential DAG load mode `CUDAMiner::init(epoch)` first polls, every 100 ms, until the
shared `s_dagLoadIndex` has reached the worker's `index`; it then runs `cuda_init`, which builds
the worker's DAG on its own device, and increments `s_dagLoadIndex`. A `runtime_error` thrown
from `cuda_init` is caught by `init`, which returns `false` without the increment. Nothing resets
`s_dagLoadIndex` (its declaration, in `CUDAMiner.h`, is not among the sources).

Each worker's place in `init` is a program counter `SeqPc`: idle, in the polling loop for an
epoch, or loading (between the start of `cuda_init` and the increment). The workers' steps
interleave in any order (`SeqEvent`).

* `sequential_load_overlaps`: after a first round in which each of `N ≥ 2` workers loads in
  turn, `s_dagLoadIndex = N` and the wait never blocks again: in the next epoch workers 0 and 1
  are loading at the same time.
* `first_round_serialised`: as long as each worker runs `init` at most once, every interleaving
  keeps at most one worker loading, worker `s_dagLoadIndex`.

Proof of the second. `SeqHost.FirstRound`: a loading worker is worker `s_dagLoadIndex`, a
polling worker's index is at least `s_dagLoadIndex`, and every worker below `s_dagLoadIndex`, as
every worker not idle, has already entered `init`. A worker that enters `init` for the first
time has an index at least `s_dagLoadIndex`, so the poll lets exactly worker `s_dagLoadIndex`
through, and its increment moves the index past it.
-/

namespace ProgPowMiner.Cuda

/-- Where a worker is in `CUDAMiner::init` in the sequential mode. -/
inductive SeqPc
  | idle
  /-- In `while (s_dagLoadIndex < index) sleep` for epoch `e`. -/
  | wait (e : Int)
  /-- Between the start of `cuda_init` for epoch `e` and `s_dagLoadIndex++`. -/
  | load (e : Int)
deriving DecidableEq, Repr

/-- `s_dagLoadIndex` and the place of every worker. -/
structure SeqHost where
  dagLoadIndex : Nat
  pcs : Nat → SeqPc

/-- A step of worker `w`: entering `init(e)`, one test of the polling loop, `cuda_init`
returning (followed by the increment), or `cuda_init` throwing. -/
inductive SeqEvent
  | init (w : Nat) (e : Int)
  | poll (w : Nat)
  | finish (w : Nat)
  | fail (w : Nat)

/-- No worker in `init` and `s_dagLoadIndex = 0`. -/
def SeqHost.initial : SeqHost := ⟨0, fun _ => .idle⟩

/-- Worker `w` moves to `p`. -/
def SeqHost.set (h : SeqHost) (w : Nat) (p : SeqPc) : SeqHost :=
  { h with pcs := Function.update h.pcs w p }

/-- One step; a step the worker is not at changes nothing. -/
def SeqHost.step (h : SeqHost) : SeqEvent → SeqHost
  | .init w e => if h.pcs w = .idle then h.set w (.wait e) else h
  | .poll w =>
    match h.pcs w with
    | .wait e => if h.dagLoadIndex < w then h else h.set w (.load e)
    | _ => h
  | .finish w =>
    match h.pcs w with
    | .load _ => { h.set w .idle with dagLoadIndex := h.dagLoadIndex + 1 }
    | _ => h
  | .fail w =>
    match h.pcs w with
    | .load _ => h.set w .idle
    | _ => h

def SeqHost.run (h : SeqHost) (es : List SeqEvent) : SeqHost := es.foldl SeqHost.step h

/-- The worker an event makes enter `init`. -/
def SeqEvent.initWorker? : SeqEvent → Option Nat
  | .init w _ => some w
  | _ => none

@[simp] theorem SeqHost.set_pcs (h : SeqHost) (w : Nat) (p : SeqPc) :
    (h.set w p).pcs = Function.update h.pcs w p := rfl

@[simp] theorem SeqHost.set_dagLoadIndex (h : SeqHost) (w : Nat) (p : SeqPc) :
    (h.set w p).dagLoadIndex = h.dagLoadIndex := rfl

theorem SeqHost.run_append (h : SeqHost) (xs ys : List SeqEvent) :
    h.run (xs ++ ys) = (h.run xs).run ys := List.foldl_append _ _ _ _

/-! ### Later rounds overlap -/

/-- The first round: each worker `w < N` in turn runs its whole `init(e)`. -/
def firstRound (N : Nat) (e : Int) : List SeqEvent :=
  (List.range N).flatMap fun w => [.init w e, .poll w, .finish w]

/-- After the first round `s_dagLoadIndex = N` and every worker is idle. -/
theorem firstRound_run (N : Nat) (e : Int) :
    (SeqHost.initial.run (firstRound N e)).dagLoadIndex = N ∧
      ∀ w, (SeqHost.initial.run (firstRound N e)).pcs w = .idle := by
  induction N with
  | zero => exact ⟨rfl, fun _ => rfl⟩
  | succ N ih =>
    obtain ⟨hd, hp⟩ := ih
    rw [firstRound, List.range_succ, List.flatMap_append, ← firstRound, SeqHost.run_append]
    generalize SeqHost.initial.run (firstRound N e) = h at hd hp
    subst hd
    simp [SeqHost.run, SeqHost.step, hp, Function.update_apply]

/-- **Later rounds load in parallel.** For every number of workers `N ≥ 2` and all epochs
`e0`, `e1`: after the first round, in which each worker loads `e0` in turn, workers 0 and 1
enter `init(e1)` and both pass the wait at their first test, so both are between the start of
`cuda_init` and the increment at once. -/
theorem sequential_load_overlaps (N : Nat) (hN : 2 ≤ N) (e0 e1 : Int) :
    (SeqHost.initial.run (firstRound N e0 ++ [.init 0 e1, .poll 0, .init 1 e1, .poll 1])).pcs 0 =
        .load e1 ∧
      (SeqHost.initial.run (firstRound N e0 ++ [.init 0 e1, .poll 0, .init 1 e1, .poll 1])).pcs 1 =
        .load e1 := by
  obtain ⟨hd, hp⟩ := firstRound_run N e0
  rw [SeqHost.run_append]
  generalize SeqHost.initial.run (firstRound N e0) = h at hd hp
  have h1 : ¬h.dagLoadIndex < 1 := by omega
  simp [SeqHost.run, SeqHost.step, hp, h1, Function.update_apply]

/-- Two workers. -/
theorem sequential_load_overlaps_two :
    2 ≤ 2 ∧
      (SeqHost.initial.run (firstRound 2 0 ++ [.init 0 1, .poll 0, .init 1 1, .poll 1])).pcs 0 =
        .load 1 ∧
      (SeqHost.initial.run (firstRound 2 0 ++ [.init 0 1, .poll 0, .init 1 1, .poll 1])).pcs 1 =
        .load 1 :=
  ⟨le_rfl, sequential_load_overlaps 2 le_rfl 0 1⟩

/-! ### The first round is serialised -/

/-- The invariant of a first round, given the workers that have entered `init` so far. -/
structure SeqHost.FirstRound (h : SeqHost) (inited : List Nat) : Prop where
  load : ∀ w e, h.pcs w = .load e → w = h.dagLoadIndex
  wait : ∀ w e, h.pcs w = .wait e → h.dagLoadIndex ≤ w
  below : ∀ w < h.dagLoadIndex, w ∈ inited
  busy : ∀ w, h.pcs w ≠ .idle → w ∈ inited

theorem SeqHost.FirstRound.initial : SeqHost.initial.FirstRound [] :=
  ⟨fun _ _ h => (by cases h), fun _ _ h => (by cases h), fun _ h => absurd h (Nat.not_lt_zero _),
    fun _ h => absurd rfl h⟩

theorem SeqHost.FirstRound.mono {h : SeqHost} {xs ys : List Nat} (hi : h.FirstRound xs)
    (hxy : xs ⊆ ys) : h.FirstRound ys :=
  ⟨hi.load, hi.wait, fun w hw => hxy (hi.below w hw), fun w hw => hxy (hi.busy w hw)⟩

/-- Worker `w` moves to `p` and the index becomes `d`: the invariant asks this of `w`, and of
the other workers under the new index. -/
theorem SeqHost.FirstRound.update {h : SeqHost} {inited inited' : List Nat}
    (hi : h.FirstRound inited) (hsub : inited ⊆ inited') {w d : Nat} {p : SeqPc}
    (hp : ∀ e, (p = .load e → w = d) ∧ (p = .wait e → d ≤ w)) (hpb : p ≠ .idle → w ∈ inited')
    (hload : ∀ v e, v ≠ w → h.pcs v = .load e → v = d)
    (hwait : ∀ v e, v ≠ w → h.pcs v = .wait e → d ≤ v) (hbelow : ∀ v < d, v ∈ inited') :
    ({ h.set w p with dagLoadIndex := d } : SeqHost).FirstRound inited' := by
  refine ⟨fun v e hv => ?_, fun v e hv => ?_, hbelow, fun v hv => ?_⟩ <;>
    simp only [SeqHost.set_pcs] at hv <;> by_cases hvw : v = w
  · subst hvw; exact (hp e).1 (by simpa using hv)
  · exact hload v e hvw (by rwa [Function.update_noteq hvw] at hv)
  · subst hvw; exact (hp e).2 (by simpa using hv)
  · exact hwait v e hvw (by rwa [Function.update_noteq hvw] at hv)
  · subst hvw; exact hpb (by simpa using hv)
  · exact hsub (hi.busy v (by rwa [Function.update_noteq hvw] at hv))

/-- One step keeps the invariant, when a worker entering `init` enters it for the first time. -/
theorem SeqHost.FirstRound.step {h : SeqHost} {inited : List Nat} (hi : h.FirstRound inited)
    (ev : SeqEvent) (hev : ∀ w, ev.initWorker? = some w → w ∉ inited) :
    (h.step ev).FirstRound (inited ++ ev.initWorker?.toList) := by
  have hsub : inited ⊆ inited ++ ev.initWorker?.toList := List.subset_append_left _ _
  cases ev with
  | init w e =>
    simp only [SeqHost.step]
    split_ifs with hidle
    · -- a worker entering `init` for the first time is at or above the index
      have hw : h.dagLoadIndex ≤ w := Nat.le_of_not_lt fun hlt => hev w rfl (hi.below w hlt)
      exact hi.update hsub (fun _ => ⟨nofun, fun _ => hw⟩) (fun _ => by simp [SeqEvent.initWorker?])
        (fun v e' _ => hi.load v e') (fun v e' _ => hi.wait v e') (fun v hv => hsub (hi.below v hv))
    · exact hi.mono hsub
  | poll w =>
    simp only [SeqHost.step]
    split
    · rename_i e he
      split_ifs with hlt
      · exact hi.mono hsub
      · -- the poll lets through only the worker at the index
        have hwd : w = h.dagLoadIndex := by have := hi.wait w e he; omega
        exact hi.update hsub (fun _ => ⟨fun _ => hwd, nofun⟩) (fun _ => hsub (hi.busy w (by simp [he])))
          (fun v e' _ => hi.load v e') (fun v e' _ => hi.wait v e') (fun v hv => hsub (hi.below v hv))
    · exact hi.mono hsub
  | finish w =>
    simp only [SeqHost.step]
    split
    · -- the loader at the index finishes, and the index moves past it
      rename_i e he
      have hwd := hi.load w e he
      refine hi.update hsub (fun _ => ⟨nofun, nofun⟩) (absurd rfl)
        (fun v e' hvw hv => absurd ((hi.load v e' hv).trans hwd.symm) hvw)
        (fun v e' hvw hv => ?_) (fun v hv => ?_)
      · have := hi.wait v e' hv
        have : v ≠ h.dagLoadIndex := fun hvd => hvw (hvd.trans hwd.symm)
        omega
      · rcases Nat.lt_succ_iff_lt_or_eq.mp hv with hvd | hvd
        · exact hsub (hi.below v hvd)
        · exact hsub (hvd ▸ hwd ▸ hi.busy w (by simp [he]))
    · exact hi.mono hsub
  | fail w =>
    simp only [SeqHost.step]
    split
    · exact hi.update hsub (fun _ => ⟨nofun, nofun⟩) (absurd rfl) (fun v e' _ => hi.load v e')
        (fun v e' _ => hi.wait v e') (fun v hv => hsub (hi.below v hv))
    · exact hi.mono hsub

theorem SeqHost.FirstRound.run {h : SeqHost} {inited : List Nat} (hi : h.FirstRound inited)
    (es : List SeqEvent) (hnd : (inited ++ es.filterMap SeqEvent.initWorker?).Nodup) :
    (h.run es).FirstRound (inited ++ es.filterMap SeqEvent.initWorker?) := by
  induction es generalizing h inited with
  | nil => simpa [SeqHost.run] using hi
  | cons ev es ih =>
    have hev : ∀ w, ev.initWorker? = some w → w ∉ inited := by
      intro w hw hmem
      rw [List.filterMap_cons, hw] at hnd
      exact (List.nodup_append.mp hnd).2.2 hmem (List.mem_cons_self _ _)
    have hnd' : (inited ++ ev.initWorker?.toList ++ es.filterMap SeqEvent.initWorker?).Nodup := by
      cases h' : ev.initWorker? <;> simpa [List.filterMap_cons, h'] using hnd
    have := ih (hi.step ev hev) hnd'
    cases h' : ev.initWorker? <;> simpa [SeqHost.run, List.filterMap_cons, h'] using this

/-- **The first round is serialised.** Over every interleaving of the workers' steps in which
each worker enters `init` at most once, every worker between the start of `cuda_init` and its
increment is worker `s_dagLoadIndex`: at most one worker loads at a time. (Every prefix of such
an interleaving is one too, so this holds at every point of the run.) -/
theorem first_round_serialised (es : List SeqEvent)
    (hnd : (es.filterMap SeqEvent.initWorker?).Nodup) (w : Nat) (e : Int)
    (hw : (SeqHost.initial.run es).pcs w = .load e) :
    w = (SeqHost.initial.run es).dagLoadIndex :=
  (SeqHost.FirstRound.initial.run es (by simpa using hnd)).load w e hw

/-- Worker 1 enters `init` first and waits; worker 0 passes and is the one loading. -/
theorem first_round_serialised_interleaved :
    ([SeqEvent.init 1 0, .init 0 0, .poll 1, .poll 0].filterMap SeqEvent.initWorker?).Nodup ∧
      (SeqHost.initial.run [.init 1 0, .init 0 0, .poll 1, .poll 0]).pcs 0 = .load 0 ∧
      0 = (SeqHost.initial.run [.init 1 0, .init 0 0, .poll 1, .poll 0]).dagLoadIndex :=
  ⟨by decide, rfl, first_round_serialised _ (by decide) 0 0 rfl⟩

end ProgPowMiner.Cuda
