import ProgPowMiner.Hex
import ProgPowMiner.Binary64

/-!
# `Json::Value` and its conversions

The JSON values the stratum client receives, as jsoncpp's `Json::Reader` builds them, and the
accessors `EthStratumClient::processReponse` calls on them. jsoncpp is a library outside the
repository; its behaviour is modelled from its documented semantics. `get(key, default)` and
`get(index, default)` return the member when it is present (even when it is `null`) and the
default otherwise; the conversions `asInt`, `asInt64`, `asBool`, `asDouble` and `asString`
throw on the types they do not convert, and the integer ones on values out of range.

Numbers keep the kind the reader gives them: `int` for integers that fit `Int64`, `uint` for
larger ones up to `UInt64`, `real` for the rest, with the value of the number's text; the
`double` the reader stores for it, and `asDouble` of an integer, are its rounding.
The text `asString` gives a `double` (`valueToString`) always holds a `.` or an exponent sign;
the model writes it as the rational followed by `.0`, which keeps that property.

The exceptions the client can raise are one type, `Throw`: a jsoncpp `LogicError`, a
`BadHexCharacter` from `libdevcore`, a `std::out_of_range` from `std::string::substr`, and
behaviour the C++ standard leaves undefined.
-/

namespace ProgPowMiner.Stratum

/-- An exception escaping a handler (or undefined behaviour). -/
inductive Throw
  | logicError
  | badHexCharacter
  | outOfRange
  | undefinedBehaviour
deriving DecidableEq, Repr

/-- A `Json::Value`. -/
inductive Json
  | null
  | bool (b : Bool)
  | int (i : Int)
  | uint (n : Nat)
  | real (r : Rat)
  | str (s : String)
  | arr (xs : List Json)
  | obj (kvs : List (String × Json))
deriving Repr

/-- Peeling one `do` step of a handler that did not throw. -/
theorem bind_eq_ok {α β : Type} {x : Except Throw α} {f : α → Except Throw β} {r : β} :
    x >>= f = .ok r ↔ ∃ a, x = .ok a ∧ f a = .ok r := by
  cases x <;> simp [bind, Except.bind]

theorem pure_eq_ok {α : Type} {a r : α} : (pure a : Except Throw α) = .ok r ↔ a = r := by
  simp [pure, Except.pure]

namespace Json

/-- `isArray()`. -/
def isArray : Json → Bool
  | .arr _ => true
  | _ => false

/-- `get(key, default)` on an object: the last member of that name (the reader keeps the last
of duplicate keys), or the default. -/
def getKey : Json → String → Json → Json
  | .obj kvs, key, dflt => ((kvs.reverse.find? (·.1 == key)).map (·.2)).getD dflt
  | _, _, dflt => dflt

/-- `get(index, default)` on an array. -/
def getIdx : Json → Nat → Json → Json
  | .arr xs, i, dflt => xs.getD i dflt
  | _, _, dflt => dflt

/-- `asString()`. -/
def asString : Json → Except Throw String
  | .null => .ok ""
  | .bool b => .ok (if b then "true" else "false")
  | .int i => .ok (toString i)
  | .uint n => .ok (toString n)
  | .real r => .ok (toString r ++ ".0")
  | .str s => .ok s
  | _ => .error .logicError

/-- A conversion to a signed integer type of `bits` bits, with jsoncpp's range checks. -/
def asIntN (bits : Nat) : Json → Except Throw Int
  | .null => .ok 0
  | .bool b => .ok (if b then 1 else 0)
  | .int i => if -2 ^ (bits - 1) ≤ i ∧ i < 2 ^ (bits - 1) then .ok i else .error .logicError
  | .uint n => if n < 2 ^ (bits - 1) then .ok n else .error .logicError
  | .real r => if -2 ^ (bits - 1) ≤ r ∧ r < 2 ^ (bits - 1) then .ok (Int.tdiv r.num r.den)
      else .error .logicError
  | _ => .error .logicError

/-- `asInt()`. -/
def asInt : Json → Except Throw Int := asIntN 32

/-- `asInt64()`. -/
def asInt64 : Json → Except Throw Int := asIntN 64

/-- `asBool()`. -/
def asBool : Json → Except Throw Bool
  | .null => .ok false
  | .bool b => .ok b
  | .int i => .ok (i != 0)
  | .uint n => .ok (n != 0)
  | .real r => .ok (r != 0)
  | _ => .error .logicError

/-- `asDouble()`. -/
def asDouble : Json → Except Throw Double
  | .null => .ok (.ofRat 0)
  | .bool b => .ok (.ofRat (if b then 1 else 0))
  | .int i => .ok (.ofRat i)
  | .uint n => .ok (.ofRat n)
  | .real r => .ok (.ofRat r)
  | _ => .error .logicError

end Json

end ProgPowMiner.Stratum
