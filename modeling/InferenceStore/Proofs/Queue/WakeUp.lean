import InferenceStore.Proofs.Queue.History
import InferenceStore.Proofs.Queue.Selection
import Mathlib.Data.List.Permutation

/-
When to look again. The moment that an idle look notes is exact: what it leaves in the queue stays
as it is until then, and from then on every look finds something. A head whose patience ends may
expire before, and with it the class has another head; but then the look finds that it has expired.
-/

namespace InferenceStore

namespace Selection

variable {queue : List Request} {now time : Nat}

theorem early_of_idle {unclaimed : List Placed} (idle : (choose now unclaimed).places = [])
    (later : (choose time unclaimed).places = []) :
    ∀ moment ∈ (choose now unclaimed).moments, time < moment := by
  fun_induction choose now unclaimed with
  | case1 => exact fun _ member => (List.not_mem_nil member).elim
  | case2 => cases idle
  | case3 seed place rest claim unready others ih =>
      rw [choose] at later
      split at later
      · cases later
      · rename_i unreadyLater
        intro moment member
        rcases List.mem_append.mp member with own | behind
        · have patience : patience? seed = some moment := Option.mem_toList.mp own
          have waiting : hasWaitedOut seed time = false := by
            cases waited : hasWaitedOut seed time with
            | false => rfl
            | true => exact absurd (by simp [isReady, waited]) unreadyLater
          simpa [hasWaitedOut, patience] using waiting
        · exact ih idle later moment behind

theorem idle_again (idle : (ofQueue queue now).group = []) :
    Idle (ofQueue queue now).waiting now := by
  rw [waiting_of_idle idle]
  exact idle_of_places (places_of_idle idle) fun request member => (mem_live.mp member).2

theorem before_wakeAt_of_idle (idle : (ofQueue queue now).group = [])
    (later : Idle (ofQueue queue now).waiting time) {moment : Nat}
    (noted : (ofQueue queue now).wakeAt = some moment) : time < moment := by
  have found : moment ∈ (choose now (live queue now).zipIdx).moments ++
      (ofQueue queue now).waiting.filterMap Request.deadline :=
    (List.min?_eq_some_iff.mp noted).1
  rw [waiting_of_idle idle] at found later
  have unexpired := later.unexpired
  rcases List.mem_append.mp found with patience | deadline
  · have places := places_of_idle later.1
    rw [live_eq_self unexpired] at places
    exact early_of_idle (places_of_idle idle) places moment patience
  · obtain ⟨request, waits, ends⟩ := List.mem_filterMap.mp deadline
    simpa [Request.isExpired, ends] using unexpired request waits

/-- Looks at what an idle look leaves are idle just before the moment that it notes. -/
theorem idle_iff_before_wakeAt (idle : (ofQueue queue now).group = []) :
    Idle (ofQueue queue now).waiting time ↔
      ∀ moment, (ofQueue queue now).wakeAt = some moment → time < moment :=
  ⟨fun later _ noted => before_wakeAt_of_idle idle later noted, idle_before_wakeAt idle⟩

/-- A look that finds no group notes the very moment from which on looks find one, or a request that
has expired; and it notes none if that never comes. -/
theorem wakeAt_exact (queue : List Request) (now : Nat) (idle : (ofQueue queue now).group = []) :
    (∀ wake, (ofQueue queue now).wakeAt = some wake →
      now < wake ∧
      (∀ time, now ≤ time → time < wake →
        (ofQueue (ofQueue queue now).waiting time).group = [] ∧
          (ofQueue (ofQueue queue now).waiting time).expired = []) ∧
      ∀ time, wake ≤ time →
        (ofQueue (ofQueue queue now).waiting time).group ≠ [] ∨
          (ofQueue (ofQueue queue now).waiting time).expired ≠ []) ∧
    ((ofQueue queue now).wakeAt = none → ∀ time, now ≤ time →
      (ofQueue (ofQueue queue now).waiting time).group = [] ∧
        (ofQueue (ofQueue queue now).waiting time).expired = []) := by
  constructor
  · intro wake noted
    refine ⟨before_wakeAt_of_idle idle (idle_again idle) noted, ?_, ?_⟩
    · intro time _ early
      apply (idle_iff_before_wakeAt idle).mpr
      intro moment same
      rw [noted] at same
      cases same
      exact early
    · intro time reached
      apply Classical.not_and_iff_not_or_not.mp
      intro later
      exact absurd (before_wakeAt_of_idle idle later noted) (Nat.not_lt_of_le reached)
  · intro endless time _
    apply (idle_iff_before_wakeAt idle).mpr
    intro moment noted
    rw [endless] at noted
    cases noted

/-- Two samples wait for a third until the second of them gives up, although the first would wait
for longer; one that has given up is not counted. -/
theorem wakes_for_deadline :
    let queue := [Sample.request ⟨4, 3, 50⟩ 0 none, Sample.request ⟨4, 3, 50⟩ 1 (some 30),
      Sample.request ⟨4, 3, 50⟩ 2 (some 5)]
    (ofQueue queue 10).group = [] ∧ (ofQueue queue 10).wakeAt = some 30 ∧
      (∀ time, 10 ≤ time → time < 30 →
        (ofQueue (ofQueue queue 10).waiting time).group = [] ∧
          (ofQueue (ofQueue queue 10).waiting time).expired = []) ∧
      ∀ time, 30 ≤ time →
        (ofQueue (ofQueue queue 10).waiting time).group ≠ [] ∨
          (ofQueue (ofQueue queue 10).waiting time).expired ≠ [] := by
  intro queue
  have idle : (ofQueue queue 10).group = [] := by cbv
  have noted : (ofQueue queue 10).wakeAt = some 30 := by cbv
  exact ⟨idle, noted, ((wakeAt_exact queue 10 idle).1 30 noted).2⟩

end Selection

end InferenceStore
