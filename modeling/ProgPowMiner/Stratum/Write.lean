import ProgPowMiner.Stratum.Link

/-!
# The request buffer and its writes

Every handler that sends something appends its lines to the one `m_requestBuffer` and starts an
`async_write` of it (`async_write_with_response`, `hashrate_event_handler`); none looks at whether
a write is already outstanding. boost's `async_write` of a `streambuf` writes what `data()` holds
when it starts, and consumes what it wrote only when its handler runs (`Link.lean`).

* `overlapping_submits_resend`: two `submitSolution` calls before the first write's handler has
  run: the first request line reaches the socket twice, whichever write completes first.
* `serial_writes_send_in_order`: over every run of the client in which no two writes are ever
  outstanding at once, the lines sent, then the lines of the buffer not yet written, are the
  lines appended, in order: none is sent twice and none is lost.
-/

namespace ProgPowMiner.Stratum

def Op.isWrite : Op → Bool
  | .write _ _ _ => true
  | _ => false

def Handler.isWrite : Handler → Bool
  | .write _ _ _ => true
  | _ => false

/-- The lines a queued handler consumes from `m_requestBuffer` when it runs. -/
def Handler.transferred : Handler → Nat
  | .write _ _ n => n
  | _ => 0

/-- The writes outstanding: in flight, or complete with their handler queued. -/
def Link.writes (l : Link) : Nat := l.ops.countP Op.isWrite + l.queue.countP Handler.isWrite

/-- The lines written by writes whose handler has not run: the buffer still holds them. -/
def Link.unconsumed (l : Link) : Nat := (l.queue.map Handler.transferred).sum

variable (conn : Connection) (toEpoch : Nat → Except Throw Int) (version : String)
  (parse : String → Option Json) (submitHashrate : Bool)

/-! ## Two overlapping submissions -/

theorem Session.submitSolution_effects {s s' : Session} {sol : Solution} {effs : List Effect}
    (h : s.submitSolution conn sol = .ok (s', effs)) :
    ∃ line, s.submitLine conn sol = .ok line ∧ effs = [.append line, .write] := by
  simp only [Session.submitSolution, bind_eq_ok, pure_eq_ok, Prod.mk.injEq] at h
  obtain ⟨line, hl, -, rfl⟩ := h
  exact ⟨line, hl, rfl⟩

theorem Link.step_submitSolution (l : Link) {sol : Solution} {s : Session} {line : String}
    {g : Nat} (hs : l.session.submitSolution conn sol = .ok (s, [.append line, .write]))
    (hg : (if l.tls then l.secure else l.nonsecure) = some g) :
    l.step conn toEpoch version parse submitHashrate (.submitSolution sol) =
      { l with
        session := s
        outstanding := l.outstanding ++ [sol.stale]
        requestBuffer := l.requestBuffer ++ [⟨l.gen, line⟩]
        requests := l.requests ++ [⟨l.gen, line⟩]
        ops := l.ops ++ [.write g false (l.requestBuffer ++ [⟨l.gen, line⟩])] } := by
  simp only [Link.step, hs, Link.applyEffects, List.foldl, Link.applyEffect, Link.append,
    Link.asyncWrite, hg]

theorem getElem?_append_pair {α : Type} (xs : List α) (a b : α) :
    (xs ++ [a] ++ [b])[xs.length]? = some a ∧ (xs ++ [a] ++ [b])[xs.length + 1]? = some b := by
  rw [List.append_assoc, List.getElem?_append_right (Nat.le_refl _), Nat.sub_self,
    List.getElem?_append_right (Nat.le_succ _), Nat.succ_sub (Nat.le_refl _), Nat.sub_self]
  exact ⟨rfl, rfl⟩

theorem getElem?_eraseIdx_append_pair {α : Type} (xs : List α) (a b : α) :
    ((xs ++ [a] ++ [b]).eraseIdx xs.length)[xs.length]? = some b ∧
      ((xs ++ [a] ++ [b]).eraseIdx (xs.length + 1))[xs.length]? = some a := by
  simp [List.eraseIdx_append_of_length_le]

/-- **Overlapping submissions resend the first.** From a link with an empty request buffer and
the socket of its security level open, two `submitSolution` calls in a row start two writes of
the shared buffer: the first took the first line, the second took both. When both complete, in
either order, the socket has received the first request line twice. -/
theorem overlapping_submits_resend (l : Link) (A B : Solution) {s1 s2 : Session}
    {eA eB : List Effect} {g : Nat}
    (hA : l.session.submitSolution conn A = .ok (s1, eA)) (hB : s1.submitSolution conn B = .ok (s2, eB))
    (hg : (if l.tls then l.secure else l.nonsecure) = some g) (hb : l.requestBuffer = []) :
    ∃ lA lB, l.session.submitLine conn A = .ok lA ∧ s1.submitLine conn B = .ok lB ∧
      (l.run conn toEpoch version parse submitHashrate [.submitSolution A, .submitSolution B,
        .complete l.ops.length true, .complete l.ops.length true]).sent =
        l.sent ++ [(g, ⟨l.gen, lA⟩), (g, ⟨l.gen, lA⟩), (g, ⟨l.gen, lB⟩)] ∧
      (l.run conn toEpoch version parse submitHashrate [.submitSolution A, .submitSolution B,
        .complete (l.ops.length + 1) true, .complete l.ops.length true]).sent =
        l.sent ++ [(g, ⟨l.gen, lA⟩), (g, ⟨l.gen, lB⟩), (g, ⟨l.gen, lA⟩)] := by
  obtain ⟨lA, hlA, rfl⟩ := Session.submitSolution_effects conn hA
  obtain ⟨lB, hlB, rfl⟩ := Session.submitSolution_effects conn hB
  have h₁ := Link.step_submitSolution conn toEpoch version parse submitHashrate l hA hg
  have h₂ := Link.step_submitSolution conn toEpoch version parse submitHashrate
    (l.step conn toEpoch version parse submitHashrate (.submitSolution A)) (by rw [h₁]; exact hB)
    (by rw [h₁]; exact hg)
  refine ⟨lA, lB, hlA, hlB, ?_, ?_⟩ <;>
    simp only [Link.run, List.foldl] <;> rw [h₂, h₁] <;>
    simp only [Link.step, getElem?_append_pair, getElem?_eraseIdx_append_pair, Op.isRead,
      Bool.false_eq_true, false_and, ↓reduceIte, Op.written, hb] <;> simp

/-- The client logged in on a stratum connection, the login's write done: two results of one
drain submitted back to back. -/
theorem overlapping_submits_resend_stratum :
    ∃ (l : Link) (s1 s2 : Session) (eA eB : List Effect) (lA lB : String),
      l = (Link.initial ⟨false, false, true, false, false, 1, 0, 0, WorkPackage.empty, "", false,
          false⟩).run ⟨.stratum, "u", "p"⟩ (fun _ => .ok 0) "" (fun _ => none) false
        [.connect false, .complete 0 true, .deliver 0, .complete 0 true, .deliver 0,
          .complete 0 true, .deliver 0] ∧
      l.session.submitSolution ⟨.stratum, "u", "p"⟩ ⟨1, 0, WorkPackage.empty, false⟩ = .ok (s1, eA) ∧
      s1.submitSolution ⟨.stratum, "u", "p"⟩ ⟨2, 0, WorkPackage.empty, false⟩ = .ok (s2, eB) ∧
      (l.run ⟨.stratum, "u", "p"⟩ (fun _ => .ok 0) "" (fun _ => none) false
        [.submitSolution ⟨1, 0, WorkPackage.empty, false⟩,
          .submitSolution ⟨2, 0, WorkPackage.empty, false⟩,
          .complete l.ops.length true, .complete l.ops.length true]).sent =
        l.sent ++ [(1, ⟨1, lA⟩), (1, ⟨1, lA⟩), (1, ⟨1, lB⟩)] := by
  obtain ⟨lA, lB, -, -, h, -⟩ := overlapping_submits_resend ⟨.stratum, "u", "p"⟩ (fun _ => .ok 0) ""
    (fun _ => none) false ((Link.initial ⟨false, false, true, false, false, 1, 0, 0,
      WorkPackage.empty, "", false, false⟩).run ⟨.stratum, "u", "p"⟩ (fun _ => .ok 0) ""
        (fun _ => none) false [.connect false, .complete 0 true, .deliver 0, .complete 0 true,
          .deliver 0, .complete 0 true, .deliver 0])
    ⟨1, 0, WorkPackage.empty, false⟩ ⟨2, 0, WorkPackage.empty, false⟩ rfl rfl (g := 1) rfl rfl
  exact ⟨_, _, _, _, _, lA, lB, rfl, rfl, rfl, h⟩

/-! ## One write at a time -/

theorem sum_map_eraseIdx {α : Type} (f : α → Nat) :
    ∀ {xs : List α} {k : Nat} {a : α}, xs[k]? = some a →
      ((xs.eraseIdx k).map f).sum + f a = (xs.map f).sum
  | [], _, _, h => by simp at h
  | x :: xs, 0, a, h => by
    simp only [List.getElem?_cons_zero, Option.some.injEq] at h
    subst h; simp [Nat.add_comm]
  | x :: xs, k + 1, a, h => by
    simp only [List.getElem?_cons_succ] at h
    simp only [List.eraseIdx_cons_succ, List.map_cons, List.sum_cons, ← sum_map_eraseIdx f h]
    omega

theorem filter_eraseIdx_of_neg {α : Type} (p : α → Bool) :
    ∀ {xs : List α} {k : Nat} {a : α}, xs[k]? = some a → p a = false →
      (xs.eraseIdx k).filter p = xs.filter p
  | [], _, _, h, _ => by simp at h
  | x :: xs, 0, a, h, hp => by
    simp only [List.getElem?_cons_zero, Option.some.injEq] at h
    subst h; simp [List.filter_cons, hp]
  | x :: xs, k + 1, a, h, hp => by
    simp only [List.getElem?_cons_succ] at h
    simp only [List.eraseIdx_cons_succ, List.filter_cons, filter_eraseIdx_of_neg p h hp]

theorem Handler.transferred_of_not_write {hd : Handler} (h : hd.isWrite = false) :
    hd.transferred = 0 := by
  cases hd <;> simp_all [Handler.isWrite, Handler.transferred]

theorem sum_transferred_filter (q : List Handler) :
    ((q.filter Handler.isWrite).map Handler.transferred).sum = (q.map Handler.transferred).sum := by
  induction q with
  | nil => rfl
  | cons hd q ih =>
    cases hw : hd.isWrite
    · simp [List.filter_cons, hw, ih, Handler.transferred_of_not_write hw]
    · simp [List.filter_cons, hw, ih]

theorem sum_transferred_eq_zero {q : List Handler} (h : q.countP Handler.isWrite = 0) :
    (q.map Handler.transferred).sum = 0 := by
  rw [List.countP_eq_length_filter, List.length_eq_zero] at h
  rw [← sum_transferred_filter, h]
  rfl

/-- At most one write outstanding; a write in flight took a prefix of the buffer; the lines
sent, then the lines of the buffer not yet written, are the lines appended. -/
structure Link.SerialInv (l : Link) : Prop where
  one : l.writes ≤ 1
  taken : ∀ g b data, Op.write g b data ∈ l.ops → data <+: l.requestBuffer
  unconsumed_le : l.unconsumed ≤ l.requestBuffer.length
  lines : l.sent.map (·.2) ++ l.requestBuffer.drop l.unconsumed = l.requests

theorem Link.initial_serialInv (s : Session) : (Link.initial s).SerialInv :=
  ⟨Nat.zero_le 1, fun _ _ _ h => absurd h (List.not_mem_nil _), Nat.le_refl 0, rfl⟩

theorem Link.SerialInv.of_writes {l l' : Link} (h : l.SerialInv)
    (ho : l'.ops.filter Op.isWrite = l.ops.filter Op.isWrite)
    (hq : l'.queue.filter Handler.isWrite = l.queue.filter Handler.isWrite)
    (hb : l'.requestBuffer = l.requestBuffer) (hr : l'.requests = l.requests)
    (hs : l'.sent = l.sent) : l'.SerialInv := by
  have hu : l'.unconsumed = l.unconsumed := by
    rw [Link.unconsumed, Link.unconsumed, ← sum_transferred_filter, hq, sum_transferred_filter]
  refine ⟨?_, fun g b data hd => ?_, by rw [hu, hb]; exact h.unconsumed_le, by
    rw [hu, hb, hr, hs]; exact h.lines⟩
  · have := h.one
    simp only [Link.writes, List.countP_eq_length_filter] at this ⊢
    rwa [ho, hq]
  · have hd' : Op.write g b data ∈ l'.ops.filter Op.isWrite := List.mem_filter.mpr ⟨hd, rfl⟩
    rw [ho] at hd'
    rw [hb]
    exact h.taken g b data (List.mem_filter.mp hd').1

/-- `l'` follows `l` within a step: no write outstanding is dropped, and while at most one is
outstanding the accounting of the buffer carries over. -/
def Link.Serial (l l' : Link) : Prop :=
  l.writes ≤ l'.writes ∧ (l.SerialInv → l'.writes ≤ 1 → l'.SerialInv)

theorem Link.Serial.refl (l : Link) : l.Serial l := ⟨le_rfl, fun h _ => h⟩

theorem Link.Serial.trans {l₁ l₂ l₃ : Link} (h₁ : l₁.Serial l₂) (h₂ : l₂.Serial l₃) :
    l₁.Serial l₃ :=
  ⟨h₁.1.trans h₂.1, fun h hw => h₂.2 (h₁.2 h (h₂.1.trans hw)) hw⟩

theorem Link.Serial.of_writes {l l' : Link}
    (ho : l'.ops.filter Op.isWrite = l.ops.filter Op.isWrite)
    (hq : l'.queue.filter Handler.isWrite = l.queue.filter Handler.isWrite)
    (hb : l'.requestBuffer = l.requestBuffer) (hr : l'.requests = l.requests)
    (hs : l'.sent = l.sent) : l.Serial l' := by
  refine ⟨le_of_eq ?_, fun h _ => h.of_writes ho hq hb hr hs⟩
  simp only [Link.writes, List.countP_eq_length_filter, ho, hq]

theorem Link.Serial.of_same {l l' : Link} (ho : l'.ops = l.ops) (hq : l'.queue = l.queue)
    (hb : l'.requestBuffer = l.requestBuffer) (hr : l'.requests = l.requests)
    (hs : l'.sent = l.sent) : l.Serial l' :=
  .of_writes (by rw [ho]) (by rw [hq]) hb hr hs

theorem Link.serial_reply (l : Link) (s : Session) (o : List Bool) :
    l.Serial { l with session := s, outstanding := o } :=
  .of_same rfl rfl rfl rfl rfl

theorem Link.serial_append (l : Link) (text : String) : l.Serial (l.append text) := by
  refine ⟨le_rfl, fun h _ => ⟨h.one, fun g b data hd => (h.taken g b data hd).trans
    (List.prefix_append _ _), (h.unconsumed_le).trans (by simp [Link.append]), ?_⟩⟩
  show l.sent.map (·.2) ++ (l.requestBuffer ++ _).drop l.unconsumed = l.requests ++ _
  rw [List.drop_append_of_le_length h.unconsumed_le, ← List.append_assoc, h.lines]

theorem Link.serial_asyncWrite (l : Link) (b : Bool) : l.Serial (l.asyncWrite b) := by
  unfold Link.asyncWrite
  split
  · refine ⟨by simp [Link.writes, List.countP_append], fun h hw => ⟨hw, fun g b data hd => ?_,
      h.unconsumed_le, h.lines⟩⟩
    rcases List.mem_append.mp hd with hd | hd
    · exact h.taken g b data hd
    · obtain ⟨-, -, rfl⟩ := Op.write.inj (List.mem_singleton.mp hd)
      exact List.prefix_refl _
  · exact .of_same rfl rfl rfl rfl rfl

theorem Link.serial_close (l : Link) (g : Nat) : l.Serial (l.close g) := by
  have hf : Handler.isWrite ∘ Op.failed = Op.isWrite := by funext o; cases o <;> rfl
  have hw : (l.close g).writes = l.writes := by
    simp only [Link.writes, Link.close, List.countP_append, List.countP_map, hf]
    rw [List.countP_eq_countP_filter_add l.ops Op.isWrite (Op.on g)]
    omega
  have hu : (l.close g).unconsumed = l.unconsumed := by
    have ht : ∀ o : Op, o.failed.transferred = 0 := fun o => by cases o <;> rfl
    simp [Link.unconsumed, Link.close, Function.comp_def, ht]
  refine ⟨hw.ge, fun h _ => ⟨hw ▸ h.one, fun g' b data hd => h.taken g' b data
    (List.mem_of_mem_filter hd), hu ▸ h.unconsumed_le, hu ▸ h.lines⟩⟩

theorem Link.serial_readline (l : Link) : l.Serial l.readline := by
  unfold Link.readline Link.startRead
  split
  · split
    · split
      · exact .of_writes rfl (by simp [List.filter_append, Handler.isWrite]) rfl rfl rfl
      · exact .of_writes (by simp [List.filter_append, Op.isWrite]) rfl rfl rfl rfl
    · exact .of_same rfl rfl rfl rfl rfl
  · exact .refl l

theorem Link.serial_useSecure (l : Link) : l.Serial l.useSecure := by
  unfold Link.useSecure; split <;> exact .of_same rfl rfl rfl rfl rfl

theorem Link.serial_teardown (l : Link) : l.Serial l.teardown := by
  have h₂ : ∀ l' : Link, l'.Serial l'.closeSocket := fun l' => by
    unfold Link.closeSocket; split
    · exact serial_close _ _
    · exact .of_same rfl rfl rfl rfl rfl
  have h₃ : ∀ l' : Link, l'.Serial l'.release := fun l' => by
    unfold Link.release; split <;> exact .of_same rfl rfl rfl rfl rfl
  exact (serial_useSecure l).trans ((h₂ _).trans (h₃ _))

theorem Link.serial_disconnect (l : Link) : l.Serial l.disconnect :=
  (Serial.of_same rfl rfl rfl rfl rfl :
    l.Serial { l with session := l.session.disconnect.1 }).trans (serial_teardown _)

theorem Link.serial_applyEffects (l : Link) (effs : List Effect) :
    l.Serial (l.applyEffects effs) := by
  induction effs generalizing l with
  | nil => exact .refl l
  | cons e effs ih =>
    refine Serial.trans ?_ (ih (l.applyEffect e))
    cases e with
    | append line => exact serial_append l line
    | write => exact serial_asyncWrite l false
    | accepted b | rejected b => exact .of_same rfl rfl rfl rfl rfl
    | disconnected => exact serial_teardown l
    | _ => exact .refl l

theorem Link.serial_connect (l : Link) (tls : Bool) : l.Serial (l.connect tls) := by
  have h₁ : l.Serial (l.releaseOld tls) := by
    unfold Link.releaseOld; split
    · exact serial_close _ _
    · exact .refl l
  have h₃ : ∀ l' : Link, l'.Serial l'.runService := fun l' => by
    unfold Link.runService; split <;> exact .of_same rfl rfl rfl rfl rfl
  refine h₁.trans (Serial.trans ?_ (h₃ _))
  exact .of_writes (by simp [List.filter_append, Op.isWrite]) rfl rfl rfl rfl

theorem Link.serial_afterLine (l : Link) (line : String) :
    l.Serial (l.afterLine conn toEpoch version parse line) := by
  unfold Link.afterLine
  split
  · rename_i s effs _
    refine ((l.serial_reply s (l.markStale conn parse line)).trans
      (serial_applyEffects _ effs)).trans ?_
    dsimp only
    split
    · exact serial_readline _
    · exact .refl _
  · exact .of_same rfl rfl rfl rfl rfl

theorem Link.serial_handle (l : Link) :
    ∀ hd : Handler, hd.isWrite = false → l.Serial (l.handle conn toEpoch version parse hd)
  | .resolve true, _ => by
    dsimp only [Link.handle]
    split
    · exact .of_writes (by simp [List.filter_append, Op.isWrite]) rfl rfl rfl rfl
    · exact .of_same rfl rfl rfl rfl rfl
  | .resolve false, _ | .connect false, _ | .workTimeout true, _ | .responseTimeout true, _ =>
    serial_disconnect l
  | .connect true, _ =>
    (Serial.of_same rfl rfl rfl rfl rfl :
      l.Serial { l with session := l.session.connectHandler conn }).trans
      ((serial_useSecure _).trans ((serial_append _ _).trans (serial_asyncWrite _ false)))
  | .read true, _ => by
    dsimp only [Link.handle]
    refine Serial.trans ?_ (serial_afterLine _ _ _ _ _ _)
    exact .of_same rfl rfl rfl rfl rfl
  | .read false, _ => by
    dsimp only [Link.handle]
    split
    · exact (Serial.of_same rfl rfl rfl rfl rfl :
        l.Serial { l with pending := l.pending - 1 }).trans (serial_disconnect _)
    · exact .of_same rfl rfl rfl rfl rfl
  | .hashrate true, _ => by
    dsimp only [Link.handle]
    split
    · exact .refl l
    · exact (serial_append _ _).trans (serial_asyncWrite _ true)
  | .workTimeout false, _ | .responseTimeout false, _ | .hashrate false, _ => .refl l

theorem Link.SerialInv.take_write {l : Link} (h : l.SerialInv) {k : Nat} {ok b : Bool} {n : Nat}
    (hk : l.queue[k]? = some (.write ok b n)) :
    l.ops.countP Op.isWrite = 0 ∧ (l.queue.eraseIdx k).countP Handler.isWrite = 0 ∧
      l.unconsumed = n := by
  have he := countP_eraseIdx Handler.isWrite hk
  have hs := sum_map_eraseIdx Handler.transferred hk
  have h1 := h.one
  simp only [Handler.isWrite, if_true, Handler.transferred] at he hs
  unfold Link.writes at h1
  have hq : (l.queue.eraseIdx k).countP Handler.isWrite = 0 := by omega
  have hz := sum_transferred_eq_zero hq
  exact ⟨by omega, hq, by unfold Link.unconsumed; omega⟩

theorem Link.serial_deliver_write {l : Link} {k : Nat} {ok b : Bool} {n : Nat}
    (hk : l.queue[k]? = some (.write ok b n)) :
    l.SerialInv → (({ l with queue := l.queue.eraseIdx k } : Link).consume n).SerialInv := by
  intro h
  obtain ⟨hops, hq, hu⟩ := h.take_write hk
  have hu' : (({ l with queue := l.queue.eraseIdx k } : Link).consume n).unconsumed = 0 :=
    sum_transferred_eq_zero hq
  refine ⟨?_, fun g b' data hd =>
    absurd hops (Nat.pos_iff_ne_zero.mp (List.countP_pos_iff.mpr ⟨_, hd, rfl⟩)), ?_, ?_⟩
  · simp only [Link.writes, Link.consume, hops, hq]; omega
  · rw [hu']; exact Nat.zero_le _
  · rw [hu', List.drop_zero, ← h.lines, hu]
    rfl

theorem Link.serial_deliver (l : Link) {k : Nat} {hd : Handler} (hk : l.queue[k]? = some hd)
    (hw : (({ l with queue := l.queue.eraseIdx k } : Link).handle conn toEpoch version parse
      hd).writes ≤ 1) :
    l.SerialInv → (({ l with queue := l.queue.eraseIdx k } : Link).handle conn toEpoch version
      parse hd).SerialInv := by
  intro h
  cases hr : hd.isWrite
  · have h₁ : l.Serial { l with queue := l.queue.eraseIdx k } :=
      .of_writes rfl (filter_eraseIdx_of_neg _ hk hr) rfl rfl rfl
    exact (h₁.trans (serial_handle _ _ _ _ _ hd hr)).2 h hw
  · cases hd <;> simp only [Handler.isWrite, Bool.false_eq_true] at hr
    rename_i ok b n
    have h₁ := serial_deliver_write hk h
    have hz : (({ l with queue := l.queue.eraseIdx k } : Link).consume n).writes ≤ 1 := by
      obtain ⟨hops, hq, -⟩ := h.take_write hk
      simp only [Link.writes, Link.consume, hops, hq]; omega
    cases ok <;> cases b
    · exact h₁
    · exact h₁
    · exact (serial_readline _).2 h₁ hw
    · exact h₁

theorem Link.serial_complete (l : Link) {k : Nat} {op : Op} (hk : l.ops[k]? = some op) (ok : Bool)
    (hnot : ¬(op.isRead = true ∧ ok = true)) :
    l.Serial { l with
      ops := l.ops.eraseIdx k, queue := l.queue ++ [if ok then op.done else op.failed]
      sent := l.sent ++ if ok then op.written else [] } := by
  cases hw : op.isWrite
  · refine .of_writes (filter_eraseIdx_of_neg _ hk hw) ?_ rfl rfl ?_
    · have : (if ok then op.done else op.failed).isWrite = false := by
        cases ok <;> cases op <;> simp_all [Op.isWrite, Op.done, Op.failed, Handler.isWrite]
      simp [List.filter_append, this]
    · cases op <;> simp_all [Op.isWrite, Op.written]
  · cases op <;> simp only [Op.isWrite, Bool.false_eq_true] at hw
    rename_i g b data
    have he := countP_eraseIdx Op.isWrite hk
    simp only [Op.isWrite, if_true] at he
    refine ⟨?_, fun h hw1 => ?_⟩
    · cases ok <;> simp [Link.writes, List.countP_append, Op.done, Op.failed, Handler.isWrite] <;>
        omega
    · have h1 := h.one
      unfold Link.writes at h1
      have hu : (l.queue.map Handler.transferred).sum = 0 := sum_transferred_eq_zero (by omega)
      obtain ⟨rest, hrest⟩ := h.taken g b data (List.mem_iff_getElem?.mpr ⟨k, hk⟩)
      have hl := h.lines
      rw [Link.unconsumed, hu, List.drop_zero, ← hrest] at hl
      refine ⟨hw1, fun g' b' d hd => h.taken g' b' d (List.mem_of_mem_eraseIdx hd), ?_, ?_⟩ <;>
        cases ok <;>
        simp [Link.unconsumed, hu, Op.done, Op.failed, Op.written, Handler.transferred, ← hrest,
          Function.comp_def, hl]

/-- Every step keeps the accounting of the buffer, as long as it leaves at most one write
outstanding. -/
theorem Link.SerialInv.step {l : Link} (h : l.SerialInv) (e : LinkEvent)
    (hw : (l.step conn toEpoch version parse submitHashrate e).writes ≤ 1) :
    (l.step conn toEpoch version parse submitHashrate e).SerialInv := by
  revert hw
  cases e with
  | connect tls => exact (serial_connect l tls).2 h
  | disconnect => exact (serial_disconnect l).2 h
  | submitSolution sol =>
    dsimp only [Link.step]
    split
    · rename_i s effs _
      exact ((l.serial_reply s _).trans (serial_applyEffects _ effs)).2 h
    · exact fun _ => h
  | submitHashrate _ | exitRun =>
    dsimp only [Link.step]
    split
    · refine (Serial.of_same ?_ ?_ ?_ ?_ ?_).2 h <;> rfl
    · exact fun _ => h
  | expireWork | expireResponse | expireHashrate =>
    dsimp only [Link.step]
    split
    · refine (Serial.of_writes ?_ ?_ ?_ ?_ ?_).2 h <;> simp [List.filter_append, Handler.isWrite]
    · exact fun _ => h
  | arrive g bytes => refine (Serial.of_same ?_ ?_ ?_ ?_ ?_).2 h <;> rfl
  | complete k ok =>
    dsimp only [Link.step]
    split
    · rename_i op hk
      split
      · exact fun _ => h
      · rename_i hnot
        exact (serial_complete l hk ok hnot).2 h
    · exact fun _ => h
  | readSome k n =>
    dsimp only [Link.step]
    split
    · rename_i g hk
      split
      · refine (Serial.of_writes ?_ ?_ ?_ ?_ ?_).2 h
        · exact filter_eraseIdx_of_neg _ hk rfl
        all_goals simp [List.filter_append, Handler.isWrite]
      · refine (Serial.of_same ?_ ?_ ?_ ?_ ?_).2 h <;> rfl
    · exact fun _ => h
  | deliver k =>
    dsimp only [Link.step]
    split
    · split
      · rename_i hd hk
        exact fun hw => serial_deliver _ _ _ _ l hk hw h
      · exact fun _ => h
    · exact fun _ => h

theorem Link.SerialInv.run {l : Link} (h : l.SerialInv) (es : List LinkEvent)
    (hs : ∀ n, (l.run conn toEpoch version parse submitHashrate (es.take n)).writes ≤ 1) :
    (l.run conn toEpoch version parse submitHashrate es).SerialInv := by
  induction es generalizing l with
  | nil => exact h
  | cons e es ih =>
    exact ih (h.step _ _ _ _ _ e (hs 1)) fun n => hs (n + 1)

/-- **One write at a time sends every line once, in order.** Over every run of the client in
which no two writes are ever outstanding at once (each write's handler runs before the next
write starts), the lines that reach the sockets, then the lines of `m_requestBuffer` not yet
written, are the lines the handlers appended, in order: no line is sent twice and none is
lost. -/
theorem serial_writes_send_in_order (s : Session) (es : List LinkEvent)
    (hs : ∀ n, ((Link.initial s).run conn toEpoch version parse submitHashrate (es.take n)).writes ≤ 1) :
    ((Link.initial s).run conn toEpoch version parse submitHashrate es).sent.map (·.2) ++
        ((Link.initial s).run conn toEpoch version parse submitHashrate es).requestBuffer.drop
          ((Link.initial s).run conn toEpoch version parse submitHashrate es).unconsumed =
      ((Link.initial s).run conn toEpoch version parse submitHashrate es).requests :=
  ((Link.initial_serialInv s).run conn toEpoch version parse submitHashrate es hs).lines

/-- A stratum login: the subscribe line is written and the write completes; its handler has not
run, so the buffer still holds it. -/
theorem serial_writes_send_in_order_login :
    ((Link.initial ⟨false, false, true, false, false, 1, 0, 0, WorkPackage.empty, "", false,
        false⟩).run ⟨.stratum, "u", "p"⟩ (fun _ => .ok 0) "" (fun _ => none) false
      [.connect false, .complete 0 true, .deliver 0, .complete 0 true, .deliver 0,
        .complete 0 true]).sent.map (·.2) ++
      ((Link.initial ⟨false, false, true, false, false, 1, 0, 0, WorkPackage.empty, "", false,
        false⟩).run ⟨.stratum, "u", "p"⟩ (fun _ => .ok 0) "" (fun _ => none) false
      [.connect false, .complete 0 true, .deliver 0, .complete 0 true, .deliver 0,
        .complete 0 true]).requestBuffer.drop
      ((Link.initial ⟨false, false, true, false, false, 1, 0, 0, WorkPackage.empty, "", false,
        false⟩).run ⟨.stratum, "u", "p"⟩ (fun _ => .ok 0) "" (fun _ => none) false
      [.connect false, .complete 0 true, .deliver 0, .complete 0 true, .deliver 0,
        .complete 0 true]).unconsumed =
      ((Link.initial ⟨false, false, true, false, false, 1, 0, 0, WorkPackage.empty, "", false,
        false⟩).run ⟨.stratum, "u", "p"⟩ (fun _ => .ok 0) "" (fun _ => none) false
      [.connect false, .complete 0 true, .deliver 0, .complete 0 true, .deliver 0,
        .complete 0 true]).requests :=
  serial_writes_send_in_order ⟨.stratum, "u", "p"⟩ (fun _ => .ok 0) "" (fun _ => none) false _ _
    fun n => by
      match n with
      | 0 | 1 | 2 | 3 | 4 | 5 => decide
      | n + 6 => rw [List.take_of_length_le (by simp)]; decide

end ProgPowMiner.Stratum
