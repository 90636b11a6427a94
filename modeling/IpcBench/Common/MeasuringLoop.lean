import Mathlib.Data.List.Basic
import Mathlib.Data.Int.Basic
import Mathlib.Data.Nat.Basic

/-!
# The measuring loop of the one-way clients

Nine clients contain the same loop: take a sample of `gettimeofday`, leave when the
window of 100 ms is over, otherwise do one round and count it. The comparison looks
at `tv_usec` alone, so it is right only as long as no second has passed in between.
-/

namespace IpcBench

/-- `struct timeval`. -/
structure Timeval where
  sec : ℤ
  usec : ℤ
  deriving DecidableEq, Repr

namespace Timeval

/-- The microseconds are less than a second, as `gettimeofday` returns them. -/
def Normalised (t : Timeval) : Prop := 0 ≤ t.usec ∧ t.usec < 1000000

/-- The time in microseconds. -/
def micros (t : Timeval) : ℤ := t.sec * 1000000 + t.usec

/-- The microseconds between two times. -/
def elapsed (start t : Timeval) : ℤ := (t.sec - start.sec) * 1000000 + (t.usec - start.usec)

end Timeval

/-- The condition of the loops: `(currentTime.tv_usec - startTime.tv_usec) > 100000`. -/
def windowClosed (start current : Timeval) : Bool := decide (current.usec - start.usec > 100000)

/-- How a loop stands after a list of samples: still running, left with the number
of rounds in `cnt`, or given up by `throw` or `exit`. -/
inductive LoopResult (σ : Type*) where
  | running (cnt : ℕ) (s : σ)
  | left (cnt : ℕ) (s : σ)
  | thrown

/-- The sample at which the loop was left. -/
def LoopResult.leftAt {σ : Type*} : LoopResult σ → Option ℕ
  | .left cnt _ => some cnt
  | _ => none

/-- The loop itself, over the samples it takes and what its rounds get from outside.
`body` does one round; it is `none` when the client gives up. -/
def measuringLoop {σ ρ : Type*} (start : Timeval) (body : σ → ρ → Option σ) :
    ℕ → σ → List (Timeval × ρ) → LoopResult σ
  | cnt, s, [] => .running cnt s
  | cnt, s, (current, r) :: rest =>
      if windowClosed start current then .left cnt s
      else
        match body s r with
        | none => .thrown
        | some s => measuringLoop start body (cnt + 1) s rest

variable {σ ρ : Type*}

/-- The rounds up to the first sample that closes the window. -/
def openRounds (start : Timeval) (inputs : List (Timeval × ρ)) : List ρ :=
  (inputs.takeWhile fun input => !windowClosed start input.1).map Prod.snd

/-- A loop that is left has done exactly the rounds before the closing sample. -/
theorem measuringLoop_left {start : Timeval} {body : σ → ρ → Option σ}
    {inputs : List (Timeval × ρ)} {cnt n : ℕ} {s t : σ}
    (h : measuringLoop start body cnt s inputs = .left n t) :
    n = cnt + (openRounds start inputs).length ∧
      (openRounds start inputs).foldlM body s = some t := by
  induction inputs generalizing cnt s with
  | nil => simp [measuringLoop] at h
  | cons input rest ih =>
    obtain ⟨current, r⟩ := input
    by_cases hclosed : windowClosed start current = true
    · simp only [measuringLoop, if_pos hclosed, LoopResult.left.injEq] at h
      obtain ⟨rfl, rfl⟩ := h
      simp [openRounds, hclosed]
    · have hopen : openRounds start ((current, r) :: rest) = r :: openRounds start rest := by
        simp [openRounds, hclosed]
      simp only [measuringLoop, if_neg hclosed] at h
      cases hbody : body s r with
      | none => simp [hbody] at h
      | some u =>
        rw [hbody] at h
        obtain ⟨hcnt, hfold⟩ := ih h
        rw [hopen, List.length_cons, List.foldlM_cons, hbody]
        exact ⟨by omega, hfold⟩

/-- A loop whose rounds never give up is left at the first sample that closes the
window. -/
theorem leftAt_measuringLoop (start : Timeval) (f : σ → ρ → σ) (inputs : List (Timeval × ρ))
    (cnt : ℕ) (s : σ) :
    (measuringLoop start (fun s r => some (f s r)) cnt s inputs).leftAt =
      (inputs.findIdx? fun input => windowClosed start input.1).map (cnt + ·) := by
  induction inputs generalizing cnt s with
  | nil => rfl
  | cons input rest ih =>
    obtain ⟨current, r⟩ := input
    rw [List.findIdx?_cons]
    by_cases hclosed : windowClosed start current = true
    · simp [measuringLoop, hclosed, LoopResult.leftAt]
    · simp only [measuringLoop, if_neg hclosed, ih, Option.map_map]
      congr 1
      funext j
      simp only [Function.comp_apply]
      omega

/-- A sharper test finds the same first position exactly when it accepts the first
element that the weaker test finds. -/
theorem findIdx?_eq_iff {α : Type*} {p q : α → Bool} {xs : List α}
    (himp : ∀ x ∈ xs, p x = true → q x = true) :
    xs.findIdx? p = xs.findIdx? q ↔ ∀ x, xs.find? q = some x → p x = true := by
  induction xs with
  | nil => simp
  | cons a xs ih =>
    rw [List.findIdx?_cons, List.findIdx?_cons, List.find?_cons]
    by_cases hq : q a = true
    · by_cases hp : p a = true
      · simp [hp, hq]
      · simp [hp, hq]
    · have hp : ¬ p a = true := fun hp => hq (himp a List.mem_cons_self hp)
      rw [if_neg hp, if_neg hq]
      simp only [hq]
      rw [← ih fun x hx => himp x (List.mem_cons_of_mem a hx)]
      exact (Option.map_injective Nat.succ_injective).eq_iff

/-- Between normalised times that do not go back, the window never closes early. -/
theorem elapsed_of_windowClosed {start t : Timeval} (hstart : start.Normalised)
    (ht : t.Normalised) (hle : start.micros ≤ t.micros) (hclosed : windowClosed start t = true) :
    100000 < start.elapsed t := by
  obtain ⟨_, _⟩ := hstart
  obtain ⟨_, _⟩ := ht
  have hdiff : t.usec - start.usec > 100000 := of_decide_eq_true hclosed
  have hsec : start.sec ≤ t.sec := by
    unfold Timeval.micros at hle
    omega
  unfold Timeval.elapsed
  omega

/-- After a start in the last tenth of a second no sample ever closes the window. -/
theorem windowClosed_eq_false {start t : Timeval} (hlate : 899999 ≤ start.usec)
    (ht : t.Normalised) : windowClosed start t = false := by
  obtain ⟨_, _⟩ := ht
  simp only [windowClosed, decide_eq_false_iff_not]
  omega

/-- The measuring window, over samples that do not go back: the loop is left at the
first sample more than 100000 microseconds after the start, and at no other, exactly
when the microsecond field of that sample, if there is one, is itself more than
100000 above that of the start. -/
theorem leaves_at_first_late_iff (start : Timeval) (f : σ → ρ → σ) (s : σ)
    (inputs : List (Timeval × ρ)) (hstart : start.Normalised)
    (hnormal : ∀ input ∈ inputs, input.1.Normalised)
    (hclock : (start :: inputs.map Prod.fst).Pairwise fun t u => t.micros ≤ u.micros) :
    (measuringLoop start (fun s r => some (f s r)) 0 s inputs).leftAt =
        inputs.findIdx? (fun input => decide (100000 < start.elapsed input.1)) ↔
      ∀ input, inputs.find? (fun input => decide (100000 < start.elapsed input.1)) = some input →
        start.usec + 100000 < input.1.usec := by
  have hlater := (List.pairwise_cons.mp hclock).1
  have himp : ∀ input ∈ inputs, windowClosed start input.1 = true →
      decide (100000 < start.elapsed input.1) = true := by
    intro input hinput hclosed
    exact decide_eq_true (elapsed_of_windowClosed hstart (hnormal input hinput)
      (hlater _ (List.mem_map_of_mem hinput)) hclosed)
  rw [leftAt_measuringLoop, show (0 + · : ℕ → ℕ) = id from funext Nat.zero_add, Option.map_id_fun,
    id_eq, findIdx?_eq_iff himp]
  refine forall_congr' fun input => imp_congr_right fun _ => ?_
  simp only [windowClosed, decide_eq_true_eq]
  omega

/-- A start at the beginning of a second: the loop is left at the third sample. -/
theorem leaves_at_first_late_iff_early :
    (measuringLoop ⟨7, 5⟩ (fun _ (_ : Unit) => some ()) 0 ()
        [(⟨7, 50⟩, ()), (⟨7, 100005⟩, ()), (⟨7, 100006⟩, ())]).leftAt = some 2 := by
  refine ((leaves_at_first_late_iff ⟨7, 5⟩ (fun _ (_ : Unit) => ()) ()
    [(⟨7, 50⟩, ()), (⟨7, 100005⟩, ()), (⟨7, 100006⟩, ())] ?_ ?_ ?_).mpr ?_).trans rfl
  · exact ⟨by decide, by decide⟩
  · simp [Timeval.Normalised]
  · simp [Timeval.micros]
  · simp [Timeval.elapsed]

/-- A start late in a second: half a second and more passes and the loop still runs. -/
theorem runs_past_second_boundary :
    (measuringLoop ⟨7, 950000⟩ (fun _ (_ : Unit) => some ()) 0 ()
        [(⟨7, 950001⟩, ()), (⟨8, 60000⟩, ()), (⟨8, 500000⟩, ())]).leftAt ≠
      [(⟨7, 950001⟩, ()), (⟨8, 60000⟩, ()), (⟨8, 500000⟩, ())].findIdx?
        (fun input : Timeval × Unit =>
          decide (100000 < Timeval.elapsed ⟨7, 950000⟩ input.1)) := by
  decide

end IpcBench
