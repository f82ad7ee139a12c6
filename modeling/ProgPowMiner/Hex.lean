import ProgPowMiner.Work
import Mathlib.Data.List.Basic
import Mathlib.Tactic.IntervalCases
import Mathlib.Tactic.Ring

/-!
# Hex strings

The hex codec of `libdevcore` (outside the modelled sources, so modelled from the spec):
`dev::fromHex`, the `FixedHash<N>` constructor from a hex string, and `toHex` of a 64-bit
nonce. Strings are `List Char`. The round trips: `hexValue?_toHexN`, `toHexN_hexValue?_toLower`
and `fixedHash?_of_hexDigits`.
-/

namespace ProgPowMiner

/-- `fromHexChar`: the value of a hex digit of either case. -/
def hexDigit? (ch : Char) : Option Nat :=
  if '0' ≤ ch ∧ ch ≤ '9' then some (ch.toNat - '0'.toNat)
  else if 'a' ≤ ch ∧ ch ≤ 'f' then some (ch.toNat - 'a'.toNat + 10)
  else if 'A' ≤ ch ∧ ch ≤ 'F' then some (ch.toNat - 'A'.toNat + 10)
  else none

/-- A hex digit of either case, as `fromHex` accepts them. -/
def IsHexDigit (ch : Char) : Prop := (hexDigit? ch).isSome

instance : DecidablePred IsHexDigit := fun _ => inferInstanceAs (Decidable (_ = true))

/-- The lowercase digit `toHex` writes for `d < 16`. -/
def hexChar (d : Nat) : Char :=
  if d < 10 then Char.ofNat ('0'.toNat + d) else Char.ofNat ('a'.toNat + d - 10)

/-- The value of a string of hex digits, most significant first; `none` on a non-digit. -/
def hexValue? : List Char → Option Nat
  | [] => some 0
  | ch :: s => do
    let d ← hexDigit? ch
    let v ← hexValue? s
    pure (d * 16 ^ s.length + v)

/-- The bytes of an even-length string of hex digits. -/
def hexPairs? : List Char → Option (List Nat)
  | [] => some []
  | [_] => none
  | h :: l :: s => do
    let hi ← hexDigit? h
    let lo ← hexDigit? l
    let rest ← hexPairs? s
    pure ((hi * 16 + lo) :: rest)

/-- Modelled from the spec: `dev::fromHex(s, WhenError::Throw)` of `libdevcore`: a leading
`0x` is skipped, an odd-length string starts with a lone digit; `none` where it throws
`BadHexCharacter`. -/
def fromHex? (s : List Char) : Option (List Nat) :=
  let s := if s.take 2 = ['0', 'x'] then s.drop 2 else s
  match s.length % 2, s with
  | 1, ch :: rest => do
    let d ← hexDigit? ch
    let rest ← hexPairs? rest
    pure (d :: rest)
  | _, s => hexPairs? s

/-- The big-endian value of a byte string. -/
def bytesValue (bs : List Nat) : Nat := bs.foldl (fun acc b => acc * 256 + b) 0

/-- Modelled from the spec: `FixedHash<N>(s)`, the big-endian value of the `N` bytes `s`
encodes, the zero hash when it encodes another number of bytes, and `none` where `fromHex`
throws. -/
def fixedHash? (n : Nat) (s : List Char) : Option Nat :=
  (fromHex? s).map fun bs => if bs.length = n then bytesValue bs else 0

/-- The low `k` hex digits of `n`, lowercase, most significant first. -/
def toHexN : Nat → Nat → List Char
  | 0, _ => []
  | k + 1, n => hexChar (n / 16 ^ k % 16) :: toHexN k n

/-- Modelled from the spec: `toHex(solution.nonce)`, the 16 lowercase hex digits of the
8-byte nonce, most significant first. -/
def toHex16 (n : Nat) : List Char := toHexN 16 n

/-! ### Digits -/

theorem hexDigit?_hexChar {d : Nat} (h : d < 16) : hexDigit? (hexChar d) = some d := by
  interval_cases d <;> rfl

theorem hexDigit?_lt {ch : Char} {d : Nat} (h : hexDigit? ch = some d) : d < 16 := by
  have h09 : '0' ≤ ch ∧ ch ≤ '9' → ch.toNat ≤ 57 := fun h => h.2
  have haf : 'a' ≤ ch ∧ ch ≤ 'f' → 97 ≤ ch.toNat ∧ ch.toNat ≤ 102 := id
  have hAF : 'A' ≤ ch ∧ ch ≤ 'F' → 65 ≤ ch.toNat ∧ ch.toNat ≤ 70 := id
  simp only [hexDigit?] at h
  split_ifs at h with h1 h2 h3 <;> cases h
  · have := h09 h1; show ch.toNat - 48 < 16; omega
  · have := haf h2; show ch.toNat - 97 + 10 < 16; omega
  · have := hAF h3; show ch.toNat - 65 + 10 < 16; omega

theorem hexChar_toLower {ch : Char} {d : Nat} (h : hexDigit? ch = some d) :
    hexChar d = ch.toLower := by
  have hc : Char.ofNat ch.toNat = ch := Char.ofNat_toNat ch
  have h09 : '0' ≤ ch ∧ ch ≤ '9' → 48 ≤ ch.toNat ∧ ch.toNat ≤ 57 := id
  have haf : 'a' ≤ ch ∧ ch ≤ 'f' → 97 ≤ ch.toNat ∧ ch.toNat ≤ 102 := id
  have hAF : 'A' ≤ ch ∧ ch ≤ 'F' → 65 ≤ ch.toNat ∧ ch.toNat ≤ 70 := id
  simp only [hexDigit?] at h
  split_ifs at h with h1 h2 h3 <;> cases h
  · have := h09 h1
    show (if ch.toNat - 48 < 10 then Char.ofNat (48 + (ch.toNat - 48)) else _) = _
    rw [if_pos (by omega), Char.toLower, if_neg (by omega)]
    exact (congrArg Char.ofNat (by omega : 48 + (ch.toNat - 48) = ch.toNat)).trans hc
  · have := haf h2
    show (if ch.toNat - 97 + 10 < 10 then _ else Char.ofNat (97 + (ch.toNat - 97 + 10) - 10)) = _
    rw [if_neg (by omega), Char.toLower, if_neg (by omega)]
    exact (congrArg Char.ofNat (by omega : 97 + (ch.toNat - 97 + 10) - 10 = ch.toNat)).trans hc
  · have := hAF h3
    show (if ch.toNat - 65 + 10 < 10 then _ else Char.ofNat (97 + (ch.toNat - 65 + 10) - 10)) = _
    rw [if_neg (by omega), Char.toLower, if_pos (by omega)]
    exact congrArg Char.ofNat (by omega)

/-! ### Values of digit strings -/

theorem hexValue?_lt {s : List Char} {v : Nat} (h : hexValue? s = some v) : v < 16 ^ s.length := by
  induction s generalizing v with
  | nil => cases h; simp
  | cons ch s ih =>
    simp only [hexValue?, Option.bind_eq_bind, Option.bind_eq_some, Option.pure_def,
      Option.some.injEq] at h
    obtain ⟨d, hd, vs, hvs, rfl⟩ := h
    have h1 := hexDigit?_lt hd
    have h2 := ih hvs
    rw [List.length_cons, Nat.pow_succ]
    calc d * 16 ^ s.length + vs < (d + 1) * 16 ^ s.length := by rw [Nat.succ_mul]; omega
      _ ≤ 16 * 16 ^ s.length := Nat.mul_le_mul_right _ h1
      _ = 16 ^ s.length * 16 := Nat.mul_comm _ _

theorem hexValue?_replicate_zero (k : Nat) : hexValue? (List.replicate k '0') = some 0 := by
  induction k with
  | zero => rfl
  | succ k ih => simp [List.replicate_succ, hexValue?, ih, hexDigit?]

theorem hexValue?_append (a b : List Char) : hexValue? (a ++ b) =
    (hexValue? a).bind fun x => (hexValue? b).map (x * 16 ^ b.length + ·) := by
  induction a with
  | nil => cases h : hexValue? b <;> simp [hexValue?, h]
  | cons ch a ih =>
    rw [List.cons_append, hexValue?, ih, hexValue?]
    cases hexDigit? ch <;> cases hexValue? a <;> cases hexValue? b <;>
      simp [List.length_append, Nat.pow_add, Nat.add_mul, Nat.mul_assoc, Nat.add_assoc]

theorem hexValue?_append_zeros (s : List Char) (k : Nat) :
    hexValue? (s ++ List.replicate k '0') = (hexValue? s).map (· * 16 ^ k) := by
  rw [hexValue?_append, hexValue?_replicate_zero]
  cases hexValue? s <;> simp

theorem hexValue?_zeros_append (k : Nat) (s : List Char) :
    hexValue? (List.replicate k '0' ++ s) = hexValue? s := by
  rw [hexValue?_append, hexValue?_replicate_zero]
  cases hexValue? s <;> simp

theorem bytesValue_foldl (a : Nat) (bs : List Nat) :
    bs.foldl (fun acc b => acc * 256 + b) a = a * 256 ^ bs.length + bytesValue bs := by
  induction bs generalizing a with
  | nil => simp [bytesValue]
  | cons b bs ih =>
    have hb : bytesValue (b :: bs) = (0 * 256 + b) * 256 ^ bs.length + bytesValue bs := ih _
    rw [List.foldl_cons, ih, hb, List.length_cons, Nat.pow_succ]
    ring

theorem bytesValue_cons (b : Nat) (bs : List Nat) :
    bytesValue (b :: bs) = b * 256 ^ bs.length + bytesValue bs := by
  rw [bytesValue, List.foldl_cons, bytesValue_foldl, Nat.zero_mul, Nat.zero_add]

theorem hexPairs?_of_hexDigits {s : List Char} (hs : ∀ ch ∈ s, IsHexDigit ch)
    (he : s.length % 2 = 0) :
    ∃ bs, hexPairs? s = some bs ∧ bs.length = s.length / 2 ∧ hexValue? s = some (bytesValue bs) := by
  induction s using hexPairs?.induct with
  | case1 => exact ⟨[], rfl, rfl, rfl⟩
  | case2 ch => simp at he
  | case3 h l s ih =>
    obtain ⟨hi, hh⟩ := Option.isSome_iff_exists.mp (hs h (by simp))
    obtain ⟨lo, hl⟩ := Option.isSome_iff_exists.mp (hs l (by simp))
    obtain ⟨bs, hbs, hlen, hv⟩ :=
      ih (fun c hc => hs c (by simp [hc])) (by simp only [List.length_cons] at he; omega)
    have hpow : 16 ^ s.length = 256 ^ bs.length := by
      have he' : s.length = 2 * bs.length := by simp [List.length_cons] at he; omega
      rw [he', Nat.pow_mul]
    refine ⟨(hi * 16 + lo) :: bs, by simp [hexPairs?, hh, hl, hbs], by simp [hlen]; omega, ?_⟩
    simp only [hexValue?, hh, hl, hv, Option.bind_eq_bind, Option.some_bind, Option.pure_def,
      List.length_cons, bytesValue_cons, ← hpow, Nat.pow_succ]
    ring_nf

theorem fixedHash?_of_hexDigits {n : Nat} {s : List Char} (hs : ∀ ch ∈ s, IsHexDigit ch)
    (hn : s.length = 2 * n) : fixedHash? n s = hexValue? s := by
  have hx : s.take 2 ≠ ['0', 'x'] := fun h => by
    have : 'x' ∈ s.take 2 := by rw [h]; simp
    exact absurd (hs 'x' (List.mem_of_mem_take this)) (by decide)
  obtain ⟨bs, hbs, hlen, hv⟩ := hexPairs?_of_hexDigits hs (by omega)
  have he : s.length % 2 = 0 := by omega
  simp only [fixedHash?, fromHex?, if_neg hx, he, hbs, hv]
  simp [hlen, hn]

theorem fixedHash?_of_prefixed {n : Nat} {s : List Char} (hs : ∀ ch ∈ s, IsHexDigit ch)
    (hn : s.length = 2 * n) : fixedHash? n ('0' :: 'x' :: s) = hexValue? s := by
  obtain ⟨bs, hbs, hlen, hv⟩ := hexPairs?_of_hexDigits hs (by omega)
  have he : s.length % 2 = 0 := by omega
  simp only [fixedHash?, fromHex?, List.take, List.drop, if_true, he, hbs, hv]
  simp [hlen, hn]

/-- What `hexPairs?` returns: one byte below 256 per two digits, of the digits' value. -/
theorem hexPairs?_spec {s : List Char} {bs : List Nat} (h : hexPairs? s = some bs) :
    s.length = 2 * bs.length ∧ (∀ b ∈ bs, b < 256) ∧ hexValue? s = some (bytesValue bs) := by
  induction s using hexPairs?.induct generalizing bs with
  | case1 => cases h; exact ⟨rfl, by simp, rfl⟩
  | case2 ch => cases h
  | case3 c d s ih =>
    simp only [hexPairs?, Option.bind_eq_bind, Option.bind_eq_some, Option.pure_def,
      Option.some.injEq] at h
    obtain ⟨hi, hh, lo, hl, rest, hr, rfl⟩ := h
    obtain ⟨hlen, hlt, hv⟩ := ih hr
    have hpow : 16 ^ s.length = 256 ^ rest.length := by rw [hlen, Nat.pow_mul]
    have h16 := hexDigit?_lt hh
    have h16' := hexDigit?_lt hl
    refine ⟨by simp [hlen]; omega, ?_, ?_⟩
    · simp only [List.mem_cons, forall_eq_or_imp]
      exact ⟨by omega, hlt⟩
    · simp only [hexValue?, hh, hl, hv, Option.bind_eq_bind, Option.some_bind, Option.pure_def,
        List.length_cons, bytesValue_cons, ← hpow, Nat.pow_succ]
      ring_nf

theorem fromHex?_lt {s : List Char} {bs : List Nat} (h : fromHex? s = some bs) :
    ∀ b ∈ bs, b < 256 := by
  unfold fromHex? at h
  revert h
  generalize (if s.take 2 = ['0', 'x'] then s.drop 2 else s) = t
  intro h
  dsimp only at h
  split at h
  · simp only [Option.bind_eq_bind, Option.bind_eq_some, Option.pure_def, Option.some.injEq] at h
    obtain ⟨d, hd, rest, hr, rfl⟩ := h
    simp only [List.mem_cons, forall_eq_or_imp]
    exact ⟨(hexDigit?_lt hd).trans (by decide), (hexPairs?_spec hr).2.1⟩
  · exact (hexPairs?_spec h).2.1

theorem bytesValue_lt {bs : List Nat} (h : ∀ b ∈ bs, b < 256) :
    bytesValue bs < 256 ^ bs.length := by
  induction bs with
  | nil => simp [bytesValue]
  | cons b bs ih =>
    simp only [List.mem_cons, forall_eq_or_imp] at h
    have := ih h.2
    rw [bytesValue_cons, List.length_cons, Nat.pow_succ]
    calc b * 256 ^ bs.length + bytesValue bs < (b + 1) * 256 ^ bs.length := by
          rw [Nat.add_one_mul]; omega
      _ ≤ 256 ^ bs.length * 256 := by rw [Nat.mul_comm]; exact Nat.mul_le_mul_left _ h.1

theorem fixedHash?_lt {n : Nat} {s : List Char} {v : Nat} (h : fixedHash? n s = some v) :
    v < 256 ^ n := by
  obtain ⟨bs, hbs, rfl⟩ := Option.map_eq_some'.mp h
  split_ifs with hl
  · exact hl ▸ bytesValue_lt (fromHex?_lt hbs)
  · exact Nat.pos_pow_of_pos _ (by decide)

theorem fixedHash?_even {n : Nat} {s : List Char} {v : Nat} (hn : s.length = 2 * n)
    (hx : s.take 2 ≠ ['0', 'x']) (h : fixedHash? n s = some v) : hexValue? s = some v := by
  have he : s.length % 2 = 0 := by omega
  simp only [fixedHash?, fromHex?, if_neg hx, he] at h
  obtain ⟨bs, hbs, rfl⟩ := Option.map_eq_some'.mp h
  obtain ⟨hlen, -, hv⟩ := hexPairs?_spec hbs
  rw [if_pos (show bs.length = n by omega), hv]

/-- `FixedHash<n>` of `2 * n` characters starting with `0x` is the zero hash: `fromHex` gives
one byte too few. -/
theorem fixedHash?_prefixed_zero {n : Nat} {s : List Char} {v : Nat} (hn : s.length = 2 * n)
    (hx : s.take 2 = ['0', 'x']) (h : fixedHash? n s = some v) : v = 0 := by
  have hl2 : 2 ≤ s.length := by
    have := congrArg List.length hx
    simp only [List.length_take, List.length_cons, List.length_nil] at this
    omega
  have he : (s.drop 2).length % 2 = 0 := by simp; omega
  simp only [fixedHash?, fromHex?, if_pos hx, he] at h
  obtain ⟨bs, hbs, rfl⟩ := Option.map_eq_some'.mp h
  have hlen := (hexPairs?_spec hbs).1
  simp only [List.length_drop] at hlen
  rw [if_neg (show bs.length ≠ n by omega)]

/-! ### Writing digits -/

@[simp] theorem length_toHexN (k n : Nat) : (toHexN k n).length = k := by
  induction k <;> simp [toHexN, *]

theorem take_toHexN (l m n : Nat) : (toHexN (l + m) n).take l = toHexN l (n / 16 ^ m) := by
  induction l with
  | zero => rfl
  | succ l ih =>
    rw [Nat.add_right_comm, toHexN, List.take_succ_cons, ih, toHexN, Nat.div_div_eq_div_mul,
      ← Nat.pow_add, Nat.add_comm m]

theorem toHexN_mod (k n : Nat) : toHexN k (n % 16 ^ k) = toHexN k n := by
  induction k generalizing n with
  | zero => rfl
  | succ k ih =>
    have hdvd : 16 ^ k ∣ 16 ^ (k + 1) := Nat.pow_dvd_pow 16 (Nat.le_succ k)
    rw [toHexN, toHexN, ← ih (n % _), Nat.mod_mod_of_dvd _ hdvd, ih, Nat.pow_succ,
      Nat.mod_mul_right_div_self, Nat.mod_mod]

theorem toHexN_hexValue?_toLower {s : List Char} (hs : ∀ ch ∈ s, IsHexDigit ch) :
    ∃ v, hexValue? s = some v ∧ toHexN s.length v = s.map Char.toLower := by
  induction s with
  | nil => exact ⟨0, rfl, rfl⟩
  | cons ch s ih =>
    obtain ⟨d, hd⟩ := Option.isSome_iff_exists.mp (hs ch (List.mem_cons_self _ _))
    obtain ⟨v, hv, hvs⟩ := ih fun c hc => hs c (List.mem_cons_of_mem _ hc)
    refine ⟨d * 16 ^ s.length + v, by simp [hexValue?, hd, hv], ?_⟩
    have hP : 0 < 16 ^ s.length := Nat.pos_pow_of_pos _ (by decide)
    have hlt := hexValue?_lt hv
    have hdiv : (d * 16 ^ s.length + v) / 16 ^ s.length = d := by
      rw [Nat.mul_comm, Nat.mul_add_div hP, Nat.div_eq_of_lt hlt, Nat.add_zero]
    rw [List.length_cons, toHexN, hdiv, Nat.mod_eq_of_lt (hexDigit?_lt hd), hexChar_toLower hd,
      ← toHexN_mod, Nat.mul_comm, Nat.mul_add_mod, Nat.mod_eq_of_lt hlt, hvs, List.map_cons]

theorem hexValue?_toHexN (k n : Nat) : hexValue? (toHexN k n) = some (n % 16 ^ k) := by
  induction k with
  | zero => simp [toHexN, hexValue?, Nat.mod_one]
  | succ k ih =>
    simp only [toHexN, hexValue?, hexDigit?_hexChar (Nat.mod_lt _ (by norm_num : 16 > 0)), ih,
      length_toHexN, Option.bind_eq_bind, Option.some_bind, Option.pure_def, Option.some.injEq]
    rw [Nat.mod_pow_succ, Nat.add_comm, Nat.mul_comm]

end ProgPowMiner
