import GaugeConsole.Exposition

/-!
# Histograms

An observation is counted in the first bucket that it does not exceed. The last bucket has no
upper bound, so only what is not a number is counted nowhere. A scrape sees each bucket together
with those below it.
-/

namespace GaugeConsole

structure Histogram where
  /-- Each bucket's upper bound, and the observations that no smaller bucket has. -/
  buckets : List (Binary64 × Nat)
  sum : Binary64
deriving DecidableEq

namespace Histogram

/-- Buckets with the given bounds and one beyond them, without an observation. -/
def empty (bounds : List Decimal) : Histogram where
  buckets := (bounds.map fun d => (d.toBinary64 false, 0)) ++ [(.infinite false, 0)]
  sum := .zero

/-- Counts an observation in the first bucket that it does not exceed. -/
def count (x : Binary64) : List (Binary64 × Nat) → List (Binary64 × Nat)
  | [] => []
  | (bound, n) :: r => if x.le bound then (bound, n + 1) :: r else (bound, n) :: count x r

def observe (h : Histogram) (x : Binary64) : Histogram := ⟨count x h.buckets, h.sum + x⟩

/-- Each bound with the observations up to it. -/
def cumulative (below : Nat) : List (Binary64 × Nat) → List (Binary64 × Nat)
  | [] => []
  | (bound, n) :: r => (bound, below + n) :: cumulative (below + n) r

def total (h : Histogram) : Nat := h.buckets.foldr (fun b n => b.2 + n) 0

def samples (h : Histogram) (name : String) : List Sample :=
  (cumulative 0 h.buckets).map (fun (bound, n) =>
    ⟨name ++ "_bucket", [("le", Exposition.number bound)], .ofNat n⟩)
    ++ [⟨name ++ "_count", [], .ofNat h.total⟩, ⟨name ++ "_sum", [], h.sum⟩]

end Histogram

end GaugeConsole
