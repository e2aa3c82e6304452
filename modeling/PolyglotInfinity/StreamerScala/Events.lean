import Mathlib.Data.Stream.Init
import PolyglotInfinity.Lib.Libm

/-!
# The stream of risk events

`riskEventStream` of the Scala streamer: an endless list, unfolded from a state.
-/

namespace PolyglotInfinity.StreamerScala

inductive AlertLevel where
  | info | warning | critical

inductive RiskEvent (F : Type) where
  | tick (price vol : F) (ts : Int64)
  | alert (level : AlertLevel) (message : String)
  | heartbeat (seqNo : Int64)

/-- `s2` from `s`, and `s3` from `s2`. -/
def lcgNext (s : Int64) : Int64 := (1664525 * s + 1013904223) &&& 0x7FFFFFFF

variable {F : Type} [Field F] [LinearOrder F]

/-- The state of the unfolding. -/
structure Unfolding (F : Type) where
  s : Int64
  price : F
  seq : Int64

/-- The next event, and the state behind it; `fixed3` is the format `%.3f`. -/
def unfold (lib : Libm F) (fixed3 : F → String) (mu sigma : F) (st : Unfolding F) : RiskEvent F × Unfolding F :=
  let s2 := lcgNext st.s
  let s3 := lcgNext s2
  let u := (s2.toInt : F) / ((0x7FFFFFFF : Int64).toInt : F)
  let u2 := (s3.toInt : F) / ((0x7FFFFFFF : Int64).toInt : F)
  let z := lib.sqrt (-2.0 * lib.log (u + 1e-10)) * lib.cos (2.0 * 3.141592653589793 * u2)
  let newP := st.price * lib.exp (mu / 252.0 + sigma / lib.sqrt 252.0 * z)
  let vol := sigma * (0.8 + u * 0.4)
  let event :=
    if st.seq % 50 = 0 then .heartbeat st.seq
    else if 0.28 < vol then .alert .warning ("vol=" ++ fixed3 vol)
    else .tick newP vol st.seq
  (event, ⟨s3, newP, st.seq + 1⟩)

def riskEventStream (lib : Libm F) (fixed3 : F → String) (seed : Int32) (mu sigma : F) : Stream' (RiskEvent F) :=
  Stream'.unfolds (fun st => (unfold lib fixed3 mu sigma st).1) (fun st => (unfold lib fixed3 mu sigma st).2)
    ⟨seed.toInt64, 100.0, 0⟩

/-- Each event takes two steps of the generator. -/
theorem iterate_unfold (lib : Libm F) (fixed3 : F → String) (mu sigma : F) (n : ℕ) (st : Unfolding F) :
    ((fun st => (unfold lib fixed3 mu sigma st).2)^[n] st).s = lcgNext^[2 * n] st.s := by
  induction n generalizing st with
  | zero => rfl
  | succ n ih =>
    have next : (unfold lib fixed3 mu sigma st).2.s = lcgNext (lcgNext st.s) := rfl
    have rounds : 2 * (n + 1) = 2 * n + 1 + 1 := by omega
    rw [Function.iterate_succ_apply, ih, next, rounds, Function.iterate_succ_apply, Function.iterate_succ_apply]

end PolyglotInfinity.StreamerScala
