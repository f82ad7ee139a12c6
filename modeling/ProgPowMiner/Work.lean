import Mathlib.Data.Nat.Defs
import Mathlib.Algebra.Group.Nat.Basic
import Mathlib.Order.Basic

/-!
# Work packages and solutions

The values that flow between the stratum client and the CUDA workers: the `WorkPackage` the
client publishes on `mining.notify` and the `Solution` a worker submits. Both are declared in
`libethcore/Miner.h`, which is not part of the sources modelled here; the fields are the ones
`EthStratumClient.cpp` and `CUDAMiner.cpp` read and write. Hashes (`h256`) are their big-endian
value as a `Nat` below `2 ^ 256`; `uint64_t` fields are `Nat`s below `2 ^ 64`.

The 64-bit reductions every later module uses are here too (`u64`, `u32`), with the few facts
about them that let `omega` take over.
-/

namespace ProgPowMiner

/-- Reduction to `uint64_t`. -/
def u64 (n : Nat) : Nat := n % 2 ^ 64

/-- Reduction to a 32-bit `unsigned`. -/
def u32 (n : Nat) : Nat := n % 2 ^ 32

theorem u64_lt (n : Nat) : u64 n < 2 ^ 64 := Nat.mod_lt _ (Nat.two_pow_pos _)

theorem u64_of_lt {n : Nat} (h : n < 2 ^ 64) : u64 n = n := Nat.mod_eq_of_lt h

theorem u32_of_lt {n : Nat} (h : n < 2 ^ 32) : u32 n = n := Nat.mod_eq_of_lt h

@[simp] theorem u64_u64 (n : Nat) : u64 (u64 n) = u64 n := Nat.mod_mod _ _

theorem u64_add_u64 (a b : Nat) : u64 (u64 a + b) = u64 (a + b) := by
  simp [u64, Nat.add_mod]

/-- `a - b` on `uint64_t`, for `b` already reduced. -/
def sub64 (a b : Nat) : Nat := u64 (a + (2 ^ 64 - u64 b))

/-- `ProgPow::PROGPOW_PERIOD`: blocks per ProgPoW period. -/
def PROGPOW_PERIOD : Nat := 50

/-- `SEARCH_RESULTS`: result slots in one `search_results` buffer. -/
def SEARCH_RESULTS : Nat := 4

/-- `dev::eth::WorkPackage`. `exSizeBits` is `-1` when the pool assigns no nonce prefix. -/
structure WorkPackage where
  header : Nat
  epoch : Int
  boundary : Nat
  height : Nat
  job : Nat
  jobLen : Nat
  startNonce : Nat
  exSizeBits : Int
deriving DecidableEq, Repr

/-- The package `WorkPackage current;` default-constructs (`epoch = -1`, `exSizeBits = -1`). -/
def WorkPackage.empty : WorkPackage :=
  ⟨0, -1, 0, 0, 0, 0, 0, -1⟩

/-- `WorkPackage::operator bool`: a package is work iff its header is not the zero hash. -/
def WorkPackage.isWork (w : WorkPackage) : Bool := w.header != 0

/-- `dev::eth::Solution`. -/
structure Solution where
  nonce : Nat
  mixHash : Nat
  work : WorkPackage
  stale : Bool
deriving DecidableEq, Repr

end ProgPowMiner
