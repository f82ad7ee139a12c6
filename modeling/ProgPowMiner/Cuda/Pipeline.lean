import ProgPowMiner.Cuda.Search
import Mathlib.Data.List.Sort
import Mathlib.Data.List.Nodup
import Mathlib.Data.List.Perm.Subperm

/-!
# Pipelining of `search`

The `m_current_index >= s_numStreams` guard of `CUDAMiner::search` is what makes its
multi-stream loop safe. Over every run (any interleaving of `search` calls, loop iterations,
kicks and stop requests, from the state `cuda_init` leaves):

* every read or clear of buffer `i` comes after a synchronisation of stream `i` (or of the
  device) that follows the last launch on stream `i`;
* at most `s_numStreams` launches are outstanding at any point of the trace;
* a drain in iteration `t` reads only slots filled by the launch of iteration `t - S` on the
  same stream, so each launch is read by at most one drain (`search_pipelining`).

The observer `outstanding` runs over the trace of host events and keeps the launches issued
and not yet synchronised; `Pipelined` says that along a trace every read finds its stream
synchronised and the observer never holds more than `S` launches.

Proof. Between two actions the state satisfies `Inv`: the buffers are empty (a drain empties
the buffer it reads, a reset empties them all), and every launch in flight was issued in one of
the last `S` iterations since the index was last reset, on the stream its index selects. So the
launch in flight on the stream a drain synchronises is the one issued exactly `S` iterations
earlier (`tick_eq_of_stream`), and the launches in flight have distinct ticks inside a window of
`S`, hence number at most `S`. Each action keeps `Inv` (`Inv.step`) and its events are
`Pipelined` from the state's launches in flight (`step_pipelined`); the run lemma chains them.
-/

namespace ProgPowMiner.Cuda

/-! ### Observers over the trace -/

/-- The launches outstanding after one more event. -/
def outstandingStep (ls : List Launch) : HostEvent → List Launch
  | .launch l => ls ++ [l]
  | .synchronize i => ls.filter (·.stream ≠ i)
  | .synchronizeAll => []
  | _ => ls

/-- The launches issued and not yet synchronised after a trace. -/
def outstanding (tr : List HostEvent) : List Launch := tr.foldl outstandingStep []

/-- The buffer an event reads or clears. -/
def HostEvent.touched : HostEvent → Option Nat
  | .read i _ _ _ => some i
  | .clear i => some i
  | _ => none

/-- The iteration of a drain. -/
def HostEvent.readTick : HostEvent → Option Nat
  | .read _ t _ _ => some t
  | _ => none

/-- The event is a drain that reads a slot filled by launch `l`. -/
def HostEvent.readsFrom (l : Launch) : HostEvent → Bool
  | .read _ _ _ es => es.any (·.launch == l)
  | _ => false

/-- Along `tr`, started with the launches `ls` outstanding: at most `n` launches are ever
outstanding, and every read or clear of buffer `i` finds none outstanding on stream `i`. -/
def Pipelined (n : Nat) : List Launch → List HostEvent → Prop
  | ls, [] => ls.length ≤ n
  | ls, e :: tr => ls.length ≤ n ∧ (∀ i, e.touched = some i → ∀ l ∈ ls, l.stream ≠ i) ∧
      Pipelined n (outstandingStep ls e) tr

theorem Pipelined.length_le {n : Nat} {ls : List Launch} {tr : List HostEvent}
    (h : Pipelined n ls tr) : ls.length ≤ n := by
  cases tr <;> simp only [Pipelined] at h <;> simp [h]

theorem pipelined_append {n : Nat} {ls : List Launch} {xs ys : List HostEvent}
    (hx : Pipelined n ls xs) (hy : Pipelined n (xs.foldl outstandingStep ls) ys) :
    Pipelined n ls (xs ++ ys) := by
  induction xs generalizing ls with
  | nil => exact hy
  | cons e xs ih => exact ⟨hx.1, hx.2.1, ih hx.2.2 hy⟩

theorem Pipelined.of_append {n : Nat} {ls : List Launch} {xs ys : List HostEvent}
    (h : Pipelined n ls (xs ++ ys)) : Pipelined n (xs.foldl outstandingStep ls) ys := by
  induction xs generalizing ls with
  | nil => exact h
  | cons e xs ih => exact ih h.2.2

theorem Pipelined.outstanding {n : Nat} {tr : List HostEvent} (h : Pipelined n [] tr) :
    (∀ pre e post, tr = pre ++ e :: post → ∀ i, e.touched = some i →
      ∀ l ∈ outstanding pre, l.stream ≠ i) ∧
    ∀ pre post, tr = pre ++ post → (outstanding pre).length ≤ n := by
  refine ⟨fun pre e post htr i hi => ?_, fun pre post htr => ?_⟩
  · subst htr
    exact (Pipelined.of_append h).2.1 i hi
  · subst htr
    exact (Pipelined.of_append h).length_le

/-- Every slot a drain of iteration `t` on stream `i` reads was filled by the launch of
iteration `t - n` on stream `i`. -/
def DrainsMatch (n : Nat) (tr : List HostEvent) : Prop :=
  ∀ i t base es, HostEvent.read i t base es ∈ tr → ∀ x ∈ es,
    x.launch.stream = i ∧ x.launch.tick + n = t

/-- The iterations of the drains of a trace, in trace order. -/
def readTicks (tr : List HostEvent) : List Nat := tr.filterMap HostEvent.readTick

/-! ### The invariant -/

variable (kernel : Launch → List Found) (eval : Int → Nat → Nat → Nat × Nat) {c : Config}
  {m : Miner} {l : Launch}

/-- The pipelining invariant between two actions. `m.tick - m.currentIndex` is the iteration in
which the index was last reset; a launch issued in iteration `t` since then had index
`t + 1 - (m.tick - m.currentIndex)` and went to that index's stream. -/
structure Inv (c : Config) (m : Miner) : Prop where
  index_le : m.currentIndex ≤ m.tick
  buffer_nil : ∀ i, m.buffer i = []
  sorted : (m.inFlight.map (·.tick)).Pairwise (· < ·)
  window : ∀ l ∈ m.inFlight,
    m.tick - m.currentIndex ≤ l.tick ∧ l.tick < m.tick ∧ m.tick ≤ l.tick + c.numStreams
  stream : ∀ l ∈ m.inFlight, l.stream = (l.tick + 1 + m.currentIndex - m.tick) % c.numStreams

theorem Inv.init (c : Config) (s : Nat) : Inv c (Miner.init s) := by
  constructor <;> simp [Miner.init]

theorem Inv.stream_lt (h : Inv c m) (hl : l ∈ m.inFlight) : l.stream < c.numStreams := by
  rw [h.stream l hl]
  exact Nat.mod_lt _ c.numStreams_pos

theorem Inv.onStream_nil (h : Inv c m) {j : Nat} (hj : c.numStreams ≤ j) :
    onStream j m.inFlight = [] := by
  simp only [onStream, List.filter_eq_nil_iff, decide_eq_true_eq]
  intro l hl
  have := h.stream_lt hl
  omega

theorem Inv.tick_eq_of_stream (h : Inv c m) (hl : l ∈ m.inFlight)
    (hs : l.stream = (m.currentIndex + 1) % c.numStreams) : l.tick + c.numStreams = m.tick := by
  obtain ⟨h1, h2, h3⟩ := h.window l hl
  have hmod := (h.stream l hl).symm.trans hs
  have hd := Nat.sub_mod_eq_zero_of_mod_eq hmod.symm
  rcases Nat.lt_or_ge (m.currentIndex + 1 - (l.tick + 1 + m.currentIndex - m.tick))
    c.numStreams with hlt | hge
  · rw [Nat.mod_eq_of_lt hlt] at hd
    omega
  · omega

theorem Inv.length_le (h : Inv c m) : m.inFlight.length ≤ c.numStreams := by
  have hnd : (m.inFlight.map (·.tick)).Nodup := h.sorted.imp Nat.ne_of_lt
  have hsub : m.inFlight.map (·.tick) ⊆ List.range' (m.tick - c.numStreams) c.numStreams := by
    intro t ht
    obtain ⟨l, hl, rfl⟩ := List.mem_map.mp ht
    have := h.window l hl
    simp only [List.mem_range'_1]
    omega
  simpa using (hnd.subperm hsub).length_le

/-! ### Each action keeps the invariant -/

theorem Inv.iterate (h : Inv c m) (w : WorkPackage) : Inv c (m.iterate kernel eval c w).1 := by
  have hS := c.numStreams_pos
  have hk := h.index_le
  constructor
  · rw [Miner.iterate_currentIndex, Miner.iterate_tick]
    omega
  · intro j
    rw [Miner.iterate_buffer]
    by_cases hj : j = (m.currentIndex + 1) % c.numStreams <;>
      split_ifs <;> simp [Function.update_apply, hj, h.buffer_nil]
  · rw [Miner.iterate_inFlight, List.map_append, List.pairwise_append]
    refine ⟨?_, List.pairwise_singleton _ _, ?_⟩
    · split_ifs
      · exact h.sorted.sublist ((List.filter_sublist _).map _)
      · exact h.sorted
    · intro a ha b hb
      simp only [List.map_cons, List.map_nil, List.mem_singleton, Miner.nextLaunch] at hb
      obtain ⟨l, hl, rfl⟩ := List.mem_map.mp ha
      have hl' : l ∈ m.inFlight := by
        split_ifs at hl
        · exact List.mem_of_mem_filter hl
        · exact hl
      subst hb
      exact (h.window l hl').2.1
  · rw [Miner.iterate_inFlight, Miner.iterate_tick, Miner.iterate_currentIndex]
    intro l hl
    rcases List.mem_append.mp hl with hl | hl
    · split_ifs at hl with hd
      · obtain ⟨hl, hne⟩ := List.mem_filter.mp hl
        have := h.window l hl
        have hlt : l.tick + c.numStreams ≠ m.tick := fun heq => by
          have hs := h.stream l hl
          rw [show l.tick + 1 + m.currentIndex - m.tick = m.currentIndex + 1 - c.numStreams by
              omega,
            ← Nat.mod_eq_sub_mod hd] at hs
          exact (of_decide_eq_true hne) hs
        omega
      · have := h.window l hl
        omega
    · simp only [List.mem_singleton] at hl
      subst hl
      simp only [Miner.nextLaunch]
      omega
  · rw [Miner.iterate_inFlight, Miner.iterate_tick, Miner.iterate_currentIndex]
    intro l hl
    rcases List.mem_append.mp hl with hl | hl
    · have hl' : l ∈ m.inFlight := by
        split_ifs at hl
        · exact List.mem_of_mem_filter hl
        · exact hl
      rw [h.stream l hl']
      congr 1
      omega
    · simp only [List.mem_singleton] at hl
      subst hl
      simp [Miner.nextLaunch]

theorem Inv.begin (h : Inv c m) (header target : Nat) (ethStratum : Bool) (startN startNonce : Nat)
    (w : WorkPackage) :
    Inv c (m.begin kernel c header target ethStratum startN startNonce w).1 := by
  have hS := c.numStreams_pos
  by_cases hr : m.restarts header target
  · constructor <;>
      simp only [Miner.begin_tick, Miner.begin_currentIndex, Miner.begin_inFlight,
        Miner.begin_buffer, hr, if_true, List.map_nil, List.Pairwise.nil, List.not_mem_nil]
    · omega
    · intro j
      simp only [Miner.resetBuffers]
      split_ifs with hj
      · rfl
      · rw [h.buffer_nil, h.onStream_nil (by omega)]
        rfl
    all_goals simp
  · have h' := h
    obtain ⟨h1, h2, h3, h4, h5⟩ := h'
    constructor <;>
      simp only [Miner.begin_tick, Miner.begin_currentIndex, Miner.begin_inFlight,
        Miner.begin_buffer, hr, Bool.false_eq_true, if_false] <;> assumption

theorem Inv.step (h : Inv c m) (a : Action) : Inv c (m.step kernel eval c a).1 := by
  cases a with
  | search header target ethStratum startN startNonce w =>
    simp only [Miner.step]
    split_ifs
    · exact h.begin kernel header target ethStratum startN startNonce w
    · exact h
  | iterate =>
    simp only [Miner.step]
    split
    · exact h.iterate kernel eval _
    · exact h
  | kick => exact ⟨h.1, h.2, h.3, h.4, h.5⟩
  | stop => exact ⟨h.1, h.2, h.3, h.4, h.5⟩

/-! ### The events of each action -/

/-- A call into the farm. -/
def HostEvent.IsFarmCall : HostEvent → Prop
  | .submit _ => True
  | .failedSolution => True
  | _ => False

theorem isFarmCall_of_mem_proofs {w : WorkPackage} {base : Nat} {stale : Bool} {es : List Entry}
    {e : HostEvent} (he : e ∈ proofs eval c w base stale es) : e.IsFarmCall := by
  simp only [proofs, List.mem_map] at he
  obtain ⟨x, -, rfl⟩ := he
  split_ifs <;> trivial

theorem HostEvent.IsFarmCall.inert {e : HostEvent} (he : e.IsFarmCall) (ls : List Launch) :
    outstandingStep ls e = ls ∧ e.touched = none ∧ e.readTick = none := by
  cases e <;> first | exact ⟨rfl, rfl, rfl⟩ | cases he

theorem pipelined_farmCalls {n : Nat} {ls : List Launch} (tr : List HostEvent)
    (hf : ∀ e ∈ tr, e.IsFarmCall) (hl : ls.length ≤ n) :
    Pipelined n ls tr ∧ tr.foldl outstandingStep ls = ls ∧ readTicks tr = [] := by
  induction tr with
  | nil => exact ⟨hl, rfl, rfl⟩
  | cons e tr ih =>
    obtain ⟨ih1, ih2, ih3⟩ := ih fun e he => hf e (List.mem_cons_of_mem _ he)
    obtain ⟨hs, ht, hr⟩ := (hf e (List.mem_cons_self _ _)).inert ls
    refine ⟨⟨hl, by simp [ht], by rwa [hs]⟩, by rw [List.foldl_cons, hs, ih2], ?_⟩
    simpa only [readTicks, List.filterMap_cons, hr] using ih3

theorem Inv.iterate_pipelined (h : Inv c m) (w : WorkPackage) :
    Pipelined c.numStreams m.inFlight (m.iterate kernel eval c w).2 ∧
      (m.iterate kernel eval c w).2.foldl outstandingStep m.inFlight =
        (m.iterate kernel eval c w).1.inFlight := by
  have hlen := (h.iterate kernel eval w).length_le
  rw [Miner.iterate_inFlight] at hlen ⊢
  rw [Miner.iterate_events]
  split_ifs at hlen ⊢ with hd
  · obtain ⟨hp, hfold, -⟩ := pipelined_farmCalls (proofs eval c w (m.nextBase c) m.newWork
      (m.drain kernel ((m.currentIndex + 1) % c.numStreams) (m.nextBase c)).2.1)
      (fun e he => isFarmCall_of_mem_proofs eval he) hlen
    have hflen : (m.inFlight.filter
        fun l => !decide (l.stream = (m.currentIndex + 1) % c.numStreams)).length ≤ c.numStreams :=
      (List.length_filter_le _ _).trans h.length_le
    rw [Miner.drain_events]
    refine ⟨pipelined_append ?_ ?_, ?_⟩
    · split_ifs <;> simp [Pipelined, outstandingStep, HostEvent.touched, h.length_le, hflen]
    · split_ifs <;> simpa [Pipelined, outstandingStep, HostEvent.touched, hflen] using hp
    · split_ifs <;> simpa [outstandingStep] using hfold
  · simpa [Pipelined, outstandingStep, HostEvent.touched, h.length_le] using hlen

theorem pipelined_clears (n : Nat) (xs : List Nat) :
    Pipelined n [] (xs.map .clear) ∧ (xs.map HostEvent.clear).foldl outstandingStep [] = [] ∧
      readTicks (xs.map .clear) = [] := by
  induction xs with
  | nil => simp [Pipelined, readTicks]
  | cons x xs ih =>
    simp_all [Pipelined, outstandingStep, HostEvent.touched, readTicks, HostEvent.readTick]

theorem Inv.begin_pipelined (h : Inv c m) (header target : Nat) (ethStratum : Bool)
    (startN startNonce : Nat) (w : WorkPackage) :
    let r := m.begin kernel c header target ethStratum startN startNonce w
    Pipelined c.numStreams m.inFlight r.2 ∧ r.2.foldl outstandingStep m.inFlight = r.1.inFlight ∧
      readTicks r.2 = [] := by
  simp only [Miner.begin_events, Miner.begin_inFlight]
  split_ifs
  · obtain ⟨h1, h2, h3⟩ := pipelined_clears c.numStreams (List.range c.numStreams)
    simp only [Miner.resetBuffers, Pipelined, List.foldl_cons, outstandingStep]
    exact ⟨⟨h.length_le, by simp [HostEvent.touched], h1⟩, h2,
      by simp [readTicks, HostEvent.readTick]⟩
  · exact ⟨h.length_le, rfl, rfl⟩

theorem drainsMatch_of_readTicks_eq_nil {n : Nat} {tr : List HostEvent} (h : readTicks tr = []) :
    DrainsMatch n tr := by
  intro i t base es he
  have : t ∈ readTicks tr := List.mem_filterMap.mpr ⟨_, he, rfl⟩
  simp [h] at this

theorem Inv.mem_drain_entries (h : Inv c m) {base : Nat} {x : Entry}
    (hx : x ∈ (m.drain kernel ((m.currentIndex + 1) % c.numStreams) base).2.1) :
    x.launch.stream = (m.currentIndex + 1) % c.numStreams ∧
      x.launch.tick + c.numStreams = m.tick := by
  rw [Miner.drain_entries, h.buffer_nil, List.nil_append] at hx
  obtain ⟨l, hl, hxl⟩ := List.mem_flatMap.mp (List.mem_of_mem_take hx)
  obtain ⟨f, -, rfl⟩ := List.mem_map.mp hxl
  obtain ⟨hl, hs⟩ := List.mem_filter.mp hl
  exact ⟨of_decide_eq_true hs, h.tick_eq_of_stream hl (of_decide_eq_true hs)⟩

theorem Inv.iterate_drains (h : Inv c m) (w : WorkPackage) :
    DrainsMatch c.numStreams (m.iterate kernel eval c w).2 ∧
      readTicks (m.iterate kernel eval c w).2 =
        if c.numStreams ≤ m.currentIndex + 1 then [m.tick] else [] := by
  rw [Miner.iterate_events]
  split_ifs with hd
  · have hP := (pipelined_farmCalls (proofs eval c w (m.nextBase c) m.newWork
      (m.drain kernel ((m.currentIndex + 1) % c.numStreams) (m.nextBase c)).2.1)
      (fun e he => isFarmCall_of_mem_proofs eval he) (le_refl [].length)).2.2
    rw [Miner.drain_events]
    constructor
    · intro i t base es he x hx
      rcases List.mem_append.mp he with he | he
      · obtain ⟨rfl, rfl, -, rfl⟩ : i = (m.currentIndex + 1) % c.numStreams ∧ t = m.tick ∧
            base = m.nextBase c ∧ es = _ := by
          split_ifs at he <;> simpa using he
        exact h.mem_drain_entries kernel hx
      · rcases List.mem_cons.mp he with he | he
        · cases he
        · exact False.elim (isFarmCall_of_mem_proofs eval he)
    · simp only [readTicks, List.filterMap_append, List.filterMap_cons, HostEvent.readTick] at hP ⊢
      split_ifs <;> simp [HostEvent.readTick, hP]
  · exact ⟨drainsMatch_of_readTicks_eq_nil rfl, rfl⟩

/-- What one action adds to the trace: pipelined from the launches in flight, with the observer
ending on the new launches in flight, and at most one drain, in the current iteration. -/
theorem Inv.step_trace (h : Inv c m) (a : Action) :
    let r := m.step kernel eval c a
    (Pipelined c.numStreams m.inFlight r.2 ∧ r.2.foldl outstandingStep m.inFlight = r.1.inFlight) ∧
      DrainsMatch c.numStreams r.2 ∧ (readTicks r.2).Pairwise (· < ·) ∧
      (∀ t ∈ readTicks r.2, m.tick ≤ t ∧ t < r.1.tick) ∧ m.tick ≤ r.1.tick := by
  have hnil : Pipelined c.numStreams m.inFlight [] ∧ [].foldl outstandingStep m.inFlight =
      m.inFlight := ⟨h.length_le, rfl⟩
  cases a with
  | search header target ethStratum startN startNonce w =>
    simp only [Miner.step]
    split_ifs
    · obtain ⟨hp, hf, hr⟩ := h.begin_pipelined kernel header target ethStratum startN startNonce w
      simp only [hr, Miner.begin_tick]
      exact ⟨⟨hp, hf⟩, drainsMatch_of_readTicks_eq_nil hr, List.Pairwise.nil, by simp, le_rfl⟩
    · exact ⟨hnil, drainsMatch_of_readTicks_eq_nil rfl, List.Pairwise.nil, by simp [readTicks],
        le_rfl⟩
  | iterate =>
    simp only [Miner.step]
    split
    · obtain ⟨hd, hr⟩ := h.iterate_drains kernel eval ‹_›
      refine ⟨h.iterate_pipelined kernel eval _, hd, ?_, ?_, by simp [Miner.iterate_tick]⟩ <;>
        split_ifs at hr <;> simp [hr, Miner.iterate_tick]
    · exact ⟨hnil, drainsMatch_of_readTicks_eq_nil rfl, List.Pairwise.nil, by simp [readTicks],
        le_rfl⟩
  | kick | stop =>
    exact ⟨hnil, drainsMatch_of_readTicks_eq_nil rfl, List.Pairwise.nil,
      by simp [readTicks, Miner.step], le_rfl⟩

theorem Inv.run_trace (h : Inv c m) (as : List Action) :
    let tr := (m.run kernel eval c as).2
    Pipelined c.numStreams m.inFlight tr ∧ DrainsMatch c.numStreams tr ∧
      (readTicks tr).Pairwise (· < ·) ∧ ∀ t ∈ readTicks tr, m.tick ≤ t := by
  induction as generalizing m with
  | nil =>
    exact ⟨h.length_le, drainsMatch_of_readTicks_eq_nil rfl, List.Pairwise.nil,
      by simp [readTicks, Miner.run]⟩
  | cons a as ih =>
    obtain ⟨⟨hp, hf⟩, hd, hs, hb, htick⟩ := h.step_trace kernel eval a
    obtain ⟨hp', hd', hs', hb'⟩ := ih (h.step kernel eval a)
    simp only [Miner.run, readTicks, List.filterMap_append] at hs hb hs' hb' ⊢
    refine ⟨pipelined_append hp (hf ▸ hp'), ?_, ?_, ?_⟩
    · intro i t base es he
      rcases List.mem_append.mp he with he | he
      · exact hd i t base es he
      · exact hd' i t base es he
    · exact List.pairwise_append.mpr ⟨hs, hs', fun x hx y hy => (hb x hx).2.trans_le (hb' y hy)⟩
    · intro t ht
      rcases List.mem_append.mp ht with ht | ht
      · exact (hb t ht).1
      · exact htick.trans (hb' t ht)

theorem length_filter_readsFrom_le (n : Nat) (l : Launch) :
    ∀ tr : List HostEvent, DrainsMatch n tr →
      (tr.filter (·.readsFrom l)).length ≤ (readTicks tr).count (l.tick + n)
  | [], _ => by simp
  | e :: tr, hd => by
    have ih := length_filter_readsFrom_le n l tr fun i t base es he =>
      hd i t base es (List.mem_cons_of_mem _ he)
    cases e with
    | read i t base es =>
      by_cases hr : HostEvent.readsFrom l (.read i t base es)
      · obtain ⟨x, hx, hxl⟩ := List.any_eq_true.mp hr
        have ht := (hd i t base es (List.mem_cons_self _ _) x hx).2
        rw [beq_iff_eq.mp hxl] at ht
        simp [readTicks, HostEvent.readTick, List.filter_cons, hr, ht] at ih ⊢
        exact ih
      · simp only [List.filter_cons, hr, readTicks, List.filterMap_cons, HostEvent.readTick]
        exact ih.trans (List.count_le_count_cons _ _ _)
    | _ =>
      simp only [List.filter_cons, HostEvent.readsFrom, Bool.false_eq_true, ↓reduceIte, readTicks,
        List.filterMap_cons, HostEvent.readTick]
      exact ih

/-- **The pipelining of `search`.** Over every run from the state `cuda_init` leaves:
(a) a read or clear of buffer `i` never has a launch on stream `i` outstanding; (b) at most
`s_numStreams` launches are outstanding at any point; (c) the drain of iteration `t` on stream
`i` reads only the launch of iteration `t - s_numStreams` on stream `i`, and no launch is read
by two drains. -/
theorem search_pipelining (kernel : Launch → List Found) (eval : Int → Nat → Nat → Nat × Nat)
    (c : Config) (startingNonce : Nat) (as : List Action) :
    let tr := ((Miner.init startingNonce).run kernel eval c as).2
    (∀ pre e post, tr = pre ++ e :: post → ∀ i, e.touched = some i →
      ∀ l ∈ outstanding pre, l.stream ≠ i) ∧
    (∀ pre post, tr = pre ++ post → (outstanding pre).length ≤ c.numStreams) ∧
    (∀ i t base es, HostEvent.read i t base es ∈ tr → ∀ x ∈ es,
      x.launch.stream = i ∧ x.launch.tick + c.numStreams = t) ∧
    ∀ l, (tr.filter (·.readsFrom l)).length ≤ 1 := by
  obtain ⟨hp, hd, hs, -⟩ := (Inv.init c startingNonce).run_trace kernel eval as
  exact ⟨hp.outstanding.1, hp.outstanding.2, hd, fun l =>
    (length_filter_readsFrom_le _ l _ hd).trans
      (List.nodup_iff_count_le_one.mp (hs.imp Nat.ne_of_lt) _)⟩

/-! ### The nonce a drain credits -/

/-- A `search` call that changes `_startN` without changing the header or the target restarts
`m_current_nonce` but neither resets `m_current_index` nor discards the launches in flight. With
the default configuration, the drain after such a call credits the slot of the previous call's
launch (nonce `2 ^ 19`, `gid` 3) to `nonce_base + gid` with a `nonce_base` computed from the new
counter. -/
theorem search_startN_restart_misattributes :
    ∃ base es, HostEvent.read 1 2 base es ∈ ((Miner.init 0).run
      (fun l => if l.nonce = 2 ^ 19 then [⟨3, 0⟩] else []) (fun _ _ _ => (0, 0)) Config.defaults
      [.search 5 7 true 0 0 .empty, .iterate, .kick, .iterate, .search 5 7 true 5 0 .empty,
        .iterate]).2 ∧
      ∃ x ∈ es, u64 (base + x.found.gid) ≠ u64 (x.launch.nonce + x.found.gid) :=
  ⟨2 ^ 64 + 5 - 2 ^ 19, [⟨⟨0, 1, 2 ^ 19, 5, 7⟩, ⟨3, 0⟩⟩], by decide, _, List.mem_singleton_self _,
    by decide⟩

end ProgPowMiner.Cuda
