import InferenceStore.Proofs.Queue.History
import InferenceStore.Proofs.Queue.Selection
import Mathlib.Data.List.Find
import Mathlib.Data.List.Permutation
import Mathlib.Data.Nat.Find

/-
Which group a look finds, said without a search. The heads of a queue are the requests that can
join no earlier one. With a head run as many of the later requests that can join it, counted from
the front, as its batch size leaves room for; one that would exceed it ends the group, also if a
smaller one comes behind. The group of a look is that of the first head that is ready.

The search passes over an unready head with all that it has claimed. Joining is symmetric and
transitive and such a group is not full, so what it has claimed is the whole rest of its class:
without it the queue has the same other heads, and each has the same requests to run with.
-/

namespace InferenceStore

namespace Selection

/-! ### How many fit -/

/-- How many of these sizes, counted from the front, fit on top of what is taken. -/
def fitting (limit taken : Nat) (sizes : List Nat) : Nat :=
  Nat.findGreatest (fun count => taken + sizeSum (sizes.take count) ≤ limit) sizes.length

section

variable {limit taken count size : Nat} {sizes : List Nat}

private theorem sizeSum_take_succ (within : count < sizes.length) :
    sizeSum (sizes.take (count + 1)) = sizeSum (sizes.take count) + sizes[count] := by
  rw [List.take_succ_eq_append_getElem within, sizeSum_append, sizeSum, sizeSum, Nat.add_zero]

theorem fitting_eq (within : count ≤ sizes.length)
    (fits : taken + sizeSum (sizes.take count) ≤ limit)
    (stops : ∀ here : count < sizes.length,
      limit < taken + (sizeSum (sizes.take count) + sizes[count])) :
    fitting limit taken sizes = count := by
  refine Nat.findGreatest_eq_iff.mpr ⟨within, fun _ => fits, ?_⟩
  intro more beyond inside
  have here : count < sizes.length := Nat.lt_of_lt_of_le beyond inside
  have exceeded := stops here
  have grown : sizeSum (sizes.take (count + 1)) ≤ sizeSum (sizes.take more) :=
    sizeSum_sublist (List.take_sublist_take_left beyond)
  rw [sizeSum_take_succ here] at grown
  omega

theorem fitting_le (limit taken : Nat) (sizes : List Nat) :
    fitting limit taken sizes ≤ sizes.length :=
  Nat.findGreatest_le _

theorem fits_fitting (room : taken ≤ limit) (sizes : List Nat) :
    taken + sizeSum (sizes.take (fitting limit taken sizes)) ≤ limit := by
  have start : taken + sizeSum (sizes.take 0) ≤ limit := room
  exact Nat.findGreatest_spec (P := fun count => taken + sizeSum (sizes.take count) ≤ limit)
    (Nat.zero_le _) start

theorem exceeds_fitting (here : fitting limit taken sizes < sizes.length) :
    limit < taken + (sizeSum (sizes.take (fitting limit taken sizes)) +
      sizes[fitting limit taken sizes]) := by
  rw [← sizeSum_take_succ here]
  exact Nat.lt_of_not_le (Nat.findGreatest_is_greatest
    (P := fun count => taken + sizeSum (sizes.take count) ≤ limit) (Nat.lt_succ_self _) here)

/-- Nothing fits behind a size that does not, and nothing but empty sizes into no room. -/
theorem fitting_of_exceeds (room : taken ≤ limit) (exceeds : limit < taken + size)
    (sizes : List Nat) : fitting limit taken (size :: sizes) = 0 := by
  refine fitting_eq (Nat.zero_le _) room fun _ => ?_
  rw [List.take_zero, sizeSum, Nat.zero_add]
  exact exceeds

theorem fitting_of_fits (fits : taken + size ≤ limit) (sizes : List Nat) :
    fitting limit taken (size :: sizes) = fitting limit (taken + size) sizes + 1 := by
  refine fitting_eq (Nat.succ_le_succ (fitting_le ..)) ?_ ?_
  · rw [List.take_succ_cons, sizeSum, ← Nat.add_assoc]
    exact fits_fitting fits sizes
  · intro here
    have exceeds := exceeds_fitting (Nat.lt_of_succ_lt_succ here)
    rw [List.take_succ_cons, sizeSum, List.getElem_cons_succ]
    omega

end

/-! ### Groups by their heads -/

/-- The later requests of a queue that can join a request. -/
def candidates (queue : List Placed) (head : Placed) : List Placed :=
  queue.filter fun other => head.2 < other.2 && head.1.canJoin other.1

/-- Batching is off, there are no samples, or they fill a batch. -/
def RunsAlone (head : Request) : Prop :=
  head.policy.isEnabled = false ∨ head.batchSize = 0 ∨ head.policy.batchSize ≤ head.batchSize

instance (head : Request) : Decidable (RunsAlone head) :=
  inferInstanceAs (Decidable (_ ∨ _ ∨ _))

def sizes (requests : List Placed) : List Nat := requests.map fun other => other.1.batchSize

def followers (head : Request) (candidates : List Placed) : List Placed :=
  if RunsAlone head then []
  else candidates.take (fitting head.policy.batchSize head.batchSize (sizes candidates))

def total (head : Request) (candidates : List Placed) : Nat :=
  head.batchSize + sizeSum (sizes (followers head candidates))

/-- The head runs alone, the batch is met, or a request was left out because it would exceed it. -/
def IsFull (head : Request) (candidates : List Placed) : Prop :=
  RunsAlone head ∨ total head candidates = head.policy.batchSize ∨
    (followers head candidates).length < candidates.length

instance (head : Request) (candidates : List Placed) : Decidable (IsFull head candidates) :=
  inferInstanceAs (Decidable (_ ∨ _ ∨ _))

/-- The group of a head runs: it is full, it is as large as its policy asks for, or it has waited
for as long as its policy says. -/
def IsDue (head : Request) (now : Nat) (candidates : List Placed) : Prop :=
  IsFull head candidates ∨ head.policy.minBatchSize = 0 ∨
    head.policy.minBatchSize ≤ total head candidates ∨
    head.policy.minBatchTimeout ≠ 0 ∧ head.enqueuedAt + head.policy.minBatchTimeout ≤ now

instance (head : Request) (now : Nat) (candidates : List Placed) :
    Decidable (IsDue head now candidates) :=
  inferInstanceAs (Decidable (_ ∨ _ ∨ _ ∨ _ ∧ _))

/-- No earlier request of the queue can be joined by this one. -/
def Leads (queue : List Placed) (head : Placed) : Prop :=
  ∀ other ∈ queue, other.2 < head.2 → other.1.canJoin head.1 = false

instance (queue : List Placed) (head : Placed) : Decidable (Leads queue head) :=
  inferInstanceAs (Decidable (∀ other ∈ queue, _ → _))

def heads (queue : List Placed) : List Placed := queue.filter fun head => Leads queue head

def isDueIn (queue : List Placed) (now : Nat) (head : Placed) : Bool :=
  IsDue head.1 now (candidates queue head)

/-- The group of the first head that is due. -/
def members (queue : List Placed) (now : Nat) : List Placed :=
  ((heads queue).find? (isDueIn queue now)).elim [] fun head =>
    head :: followers head.1 (candidates queue head)

/-- The moments at which the heads in front of the first due one stop waiting. -/
def moments (queue : List Placed) (now : Nat) : List Nat :=
  ((heads queue).takeWhile fun head => !isDueIn queue now head).flatMap fun head =>
    (patience? head.1).toList

/-- What a look takes out of a queue, what it leaves, and when to look again. -/
def reference (queue : List Request) (now : Nat) : Selection :=
  let live := queue.filter fun request => !request.deadline.any (· ≤ now)
  let group := members live.zipIdx now
  let waiting :=
    (live.zipIdx.filter fun other => !(group.map Prod.snd).contains other.2).map Prod.fst
  { group := group.map Prod.fst
    expired := queue.filter fun request => request.deadline.any (· ≤ now)
    waiting := waiting
    wakeAt := (moments live.zipIdx now ++ waiting.filterMap Request.deadline).min? }

/-! ### Claims -/

theorem isAlone_iff {head : Request} : isAlone head = true ↔ RunsAlone head := by
  simp [isAlone, RunsAlone, or_assoc]

theorem sizes_cons (other : Placed) (rest : List Placed) :
    sizes (other :: rest) = other.1.batchSize :: sizes rest := rfl

theorem sizeSum_sizes_le {part whole : List Placed} (within : part.Sublist whole) :
    sizeSum (sizes part) ≤ sizeSum (sizes whole) :=
  sizeSum_sublist (within.map _)

private theorem fitting_joining_of_met (seed : Request) (rest : List Placed) (met : Nat) :
    fitting met met (sizes (joining seed rest)) = 0 := by
  cases joined : joining seed rest with
  | nil => rfl
  | cons other others =>
      have member : other ∈ joining seed rest := by
        rw [joined]
        exact List.mem_cons_self ..
      have occupied := (Request.canJoin_iff.mp (List.mem_filter.mp member).2).2.2.1
      exact fitting_of_exceeds (Nat.le_refl met) (Nat.lt_add_of_pos_right occupied) _

/-- What a seed claims is the longest run of joining requests that fits. -/
theorem claim_eq {seed : Request} {taken : Nat} {rest : List Placed}
    (room : taken < seed.policy.batchSize)
    (small : taken + sizeSum (sizes rest) < wordLimit) :
    let run := (joining seed rest).take
      (fitting seed.policy.batchSize taken (sizes (joining seed rest)))
    claim seed taken rest =
      { places := run.map Prod.snd
        total := taken + sizeSum (sizes run)
        isFull := decide (taken + sizeSum (sizes run) = seed.policy.batchSize ∨
          run.length < (joining seed rest).length) } := by
  induction rest generalizing taken with
  | nil =>
      have unfilled : taken ≠ seed.policy.batchSize := Nat.ne_of_lt room
      simp [claim, joining, sizes, sizeSum, unfilled]
  | cons next rest ih =>
      rw [sizes_cons, sizeSum] at small
      by_cases joins : seed.canJoin next.1 = true
      · have front : joining seed (next :: rest) = next :: joining seed rest :=
          List.filter_cons_of_pos joins
        have word : wrapWord (taken + next.1.batchSize) = taken + next.1.batchSize :=
          wrapWord_of_lt (by omega)
        simp only [front, sizes_cons, claim, joins, word, Bool.not_true, Bool.false_eq_true,
          if_false]
        by_cases exceeds : seed.policy.batchSize < taken + next.1.batchSize
        · rw [if_pos exceeds, fitting_of_exceeds (Nat.le_of_lt room) exceeds]
          simp [sizes, sizeSum]
        · have fits : taken + next.1.batchSize ≤ seed.policy.batchSize := Nat.le_of_not_lt exceeds
          rw [if_neg exceeds, fitting_of_fits fits, List.take_succ_cons, sizes_cons, sizeSum,
            ← Nat.add_assoc]
          by_cases met : taken + next.1.batchSize = seed.policy.batchSize
          · rw [if_pos met, met, fitting_joining_of_met]
            simp [sizes, sizeSum]
          · have onward := ih (Nat.lt_of_le_of_ne fits met) (by omega)
            rw [if_neg met, onward]
            simp
      · have passed : joining seed (next :: rest) = joining seed rest :=
          List.filter_cons_of_neg joins
        have onward := ih room (by omega)
        simp only [passed, claim, joins, Bool.not_false, if_true]
        exact onward

theorem claimOf_eq {seed : Request} {rest : List Placed}
    (small : seed.batchSize + sizeSum (sizes rest) < wordLimit) :
    claimOf seed rest =
      { places := (followers seed (joining seed rest)).map Prod.snd
        total := total seed (joining seed rest)
        isFull := decide (IsFull seed (joining seed rest)) } := by
  by_cases alone : RunsAlone seed
  · rw [claimOf, if_pos (isAlone_iff.mpr alone)]
    simp [total, followers, IsFull, alone, sizes, sizeSum]
  · have room : seed.batchSize < seed.policy.batchSize :=
      Nat.lt_of_not_le fun filled => alone (Or.inr (Or.inr filled))
    rw [claimOf, if_neg fun other => alone (isAlone_iff.mp other), claim_eq room small]
    simp [total, followers, IsFull, alone]

theorem isReady_eq {seed : Request} {now : Nat} {rest : List Placed}
    (small : seed.batchSize + sizeSum (sizes rest) < wordLimit) :
    isReady seed now (claimOf seed rest) = decide (IsDue seed now (joining seed rest)) := by
  have waited : hasWaitedOut seed now = decide (seed.policy.minBatchTimeout ≠ 0 ∧
      seed.enqueuedAt + seed.policy.minBatchTimeout ≤ now) := by
    by_cases endless : seed.policy.minBatchTimeout = 0 <;>
      simp [hasWaitedOut, patience?, endless]
  rw [claimOf_eq small, isReady, waited, Bool.eq_iff_iff, decide_eq_true_iff]
  simp [IsDue, or_assoc]

def beside (seed : Request) (rest : List Placed) : List Placed :=
  rest.filter fun other => !seed.canJoin other.1

theorem leftBy_of_unready {seed : Request} {now : Nat} {rest : List Placed}
    (distinct : Distinct rest) (unready : isReady seed now (claimOf seed rest) = false) :
    leftBy (claimOf seed rest) rest = beside seed rest := by
  apply List.filter_congr
  intro other member
  have same : (claimOf seed rest).places.contains other.2 = seed.canJoin other.1 := by
    rw [Bool.eq_iff_iff]
    constructor
    · intro taken
      exact canJoin_of_claimed distinct (List.mem_filter.mpr ⟨member, taken⟩)
    · intro joins
      have claimed := claimed_of_canJoin distinct (not_full_of_unready unready) member joins
      exact (List.mem_filter.mp claimed).2
  rw [same]

/-! ### Passing over a class -/

private theorem takeWhile_congr {α : Type} {first second : α → Bool} {items : List α}
    (same : ∀ item ∈ items, first item = second item) :
    items.takeWhile first = items.takeWhile second := by
  induction items with
  | nil => rfl
  | cons item rest ih =>
      have others := ih fun other member => same other (List.mem_cons_of_mem _ member)
      rw [List.takeWhile_cons, List.takeWhile_cons, same item (List.mem_cons_self ..), others]

def Sorted (queue : List Placed) : Prop := queue.Pairwise fun a b => a.2 < b.2

section

variable {seed head : Placed} {rest queue : List Placed} {now : Nat}

theorem Sorted.tail (sorted : Sorted (seed :: rest)) : Sorted rest := sorted.of_cons

theorem Sorted.first (sorted : Sorted (seed :: rest)) : ∀ other ∈ rest, seed.2 < other.2 :=
  (List.pairwise_cons.mp sorted).1

theorem Sorted.distinct (sorted : Sorted queue) : Distinct queue :=
  List.Pairwise.map Prod.snd (fun _ _ before => Nat.ne_of_lt before) sorted

theorem sorted_zipIdx (requests : List Request) : Sorted requests.zipIdx := by
  apply List.pairwise_map.mp
  rw [List.zipIdx_map_snd]
  exact List.pairwise_lt_range'

theorem leads_first (sorted : Sorted (seed :: rest)) : Leads (seed :: rest) seed := by
  intro other member before
  rcases List.mem_cons.mp member with same | behind
  · exact absurd before (same ▸ Nat.lt_irrefl _)
  · exact absurd (sorted.first other behind) (Nat.lt_asymm before)

theorem leads_behind (sorted : Sorted (seed :: rest)) (member : head ∈ rest) :
    Leads (seed :: rest) head ↔
      seed.1.canJoin head.1 = false ∧ Leads (beside seed.1 rest) head := by
  constructor
  · intro leads
    refine ⟨leads seed (List.mem_cons_self ..) (sorted.first head member), ?_⟩
    intro other inside
    exact leads other (List.mem_cons_of_mem _ (List.mem_filter.mp inside).1)
  · rintro ⟨apart, leads⟩ other inside before
    rcases List.mem_cons.mp inside with same | behind
    · rw [same]
      exact apart
    · cases joins : seed.1.canJoin other.1 with
      | false => exact leads other (List.mem_filter.mpr ⟨behind, by rw [joins]; rfl⟩) before
      | true =>
          apply Bool.eq_false_iff.mpr
          intro joined
          have through := Request.canJoin_trans joins joined
          rw [apart] at through
          cases through

theorem heads_cons (sorted : Sorted (seed :: rest)) :
    heads (seed :: rest) = seed :: heads (beside seed.1 rest) := by
  unfold heads
  rw [List.filter_cons_of_pos (by exact decide_eq_true (leads_first sorted)), beside,
    List.filter_filter]
  congr 1
  apply List.filter_congr
  intro head member
  rw [Bool.eq_iff_iff, decide_eq_true_iff, leads_behind sorted member]
  simp [beside, and_comm]

theorem candidates_of_split {front back : List Placed} (sorted : Sorted (front ++ head :: back)) :
    candidates (front ++ head :: back) head = joining head.1 back := by
  obtain ⟨_, behind, across⟩ := List.pairwise_append.mp sorted
  have before : front.filter (fun other => head.2 < other.2 && head.1.canJoin other.1) = [] := by
    refine List.filter_eq_nil_iff.mpr fun other member => ?_
    have ordered := across other member head (List.mem_cons_self ..)
    simp [Nat.lt_asymm ordered]
  unfold candidates joining
  rw [List.filter_append, before, List.nil_append, List.filter_cons_of_neg (by simp)]
  apply List.filter_congr
  intro other member
  simp [Sorted.first behind other member]

theorem candidates_first (sorted : Sorted (seed :: rest)) :
    candidates (seed :: rest) seed = joining seed.1 rest := by
  have split : Sorted ([] ++ seed :: rest) := sorted
  exact candidates_of_split split

theorem candidates_behind (sorted : Sorted (seed :: rest)) (member : head ∈ beside seed.1 rest) :
    candidates (seed :: rest) head = candidates (beside seed.1 rest) head := by
  obtain ⟨inRest, apart⟩ := List.mem_filter.mp member
  have before := sorted.first head inRest
  unfold candidates
  rw [List.filter_cons_of_neg (by simp [Nat.lt_asymm before]), beside, List.filter_filter]
  apply List.filter_congr
  intro other _
  cases joins : head.1.canJoin other.1 with
  | false => simp
  | true =>
      have free : seed.1.canJoin other.1 = false := by
        apply Bool.eq_false_iff.mpr
        intro joined
        have through := Request.canJoin_trans joined (Request.canJoin_symm joins)
        rw [through] at apart
        cases apart
      simp [free]

theorem isDueIn_first (sorted : Sorted (seed :: rest)) (now : Nat) :
    isDueIn (seed :: rest) now seed = decide (IsDue seed.1 now (joining seed.1 rest)) := by
  rw [isDueIn, candidates_first sorted]

theorem isDueIn_behind (sorted : Sorted (seed :: rest)) (now : Nat)
    (member : head ∈ heads (beside seed.1 rest)) :
    isDueIn (seed :: rest) now head = isDueIn (beside seed.1 rest) now head := by
  rw [isDueIn, isDueIn, candidates_behind sorted (List.mem_filter.mp member).1]

theorem members_first (sorted : Sorted (seed :: rest))
    (due : isDueIn (seed :: rest) now seed = true) :
    members (seed :: rest) now = seed :: followers seed.1 (joining seed.1 rest) := by
  rw [members, heads_cons sorted, List.find?_cons_of_pos due, Option.elim_some,
    candidates_first sorted]

theorem members_behind (sorted : Sorted (seed :: rest))
    (early : isDueIn (seed :: rest) now seed = false) :
    members (seed :: rest) now = members (beside seed.1 rest) now := by
  have due : (heads (seed :: rest)).find? (isDueIn (seed :: rest) now) =
      (heads (beside seed.1 rest)).find? (isDueIn (beside seed.1 rest) now) := by
    rw [heads_cons sorted, List.find?_cons_of_neg (by simp [early])]
    exact List.find?_congr fun head member => isDueIn_behind sorted now member
  rw [members, members, due]
  cases found : (heads (beside seed.1 rest)).find? (isDueIn (beside seed.1 rest) now) with
  | none => rfl
  | some head =>
      have among := (List.mem_filter.mp (List.mem_of_find?_eq_some found)).1
      rw [Option.elim_some, Option.elim_some, candidates_behind sorted among]

theorem followers_sublist (head : Request) (candidates : List Placed) :
    (followers head candidates).Sublist candidates := by
  unfold followers
  split
  · exact List.nil_sublist _
  · exact List.take_sublist _ _

theorem members_sublist (sorted : Sorted queue) (now : Nat) :
    (members queue now).Sublist queue := by
  unfold members
  cases found : (heads queue).find? (isDueIn queue now) with
  | none => exact List.nil_sublist _
  | some head =>
      have among := (List.mem_filter.mp (List.mem_of_find?_eq_some found)).1
      obtain ⟨front, back, rfl⟩ := List.append_of_mem among
      rw [Option.elim_some, candidates_of_split sorted]
      have behind : (followers head.1 (joining head.1 back)).Sublist back :=
        (followers_sublist _ _).trans List.filter_sublist
      exact (behind.cons_cons head).trans (List.sublist_append_right ..)

theorem moments_first (sorted : Sorted (seed :: rest))
    (due : isDueIn (seed :: rest) now seed = true) : moments (seed :: rest) now = [] := by
  rw [moments, heads_cons sorted, List.takeWhile_cons_of_neg (by simp [due])]
  rfl

theorem moments_behind (sorted : Sorted (seed :: rest))
    (early : isDueIn (seed :: rest) now seed = false) :
    moments (seed :: rest) now =
      (patience? seed.1).toList ++ moments (beside seed.1 rest) now := by
  have passed := takeWhile_congr fun head member =>
    congrArg not (isDueIn_behind sorted now member)
  rw [moments, heads_cons sorted, List.takeWhile_cons_of_pos (by simp [early]),
    List.flatMap_cons, passed]
  rfl

/-! ### The search -/

theorem choose_eq (sorted : Sorted queue) (small : sizeSum (sizes queue) < wordLimit) :
    choose now queue = ⟨(members queue now).map Prod.snd, moments queue now⟩ := by
  fun_induction choose now queue with
  | case1 => rfl
  | case2 seed place rest claim ready =>
      rw [sizes_cons, sizeSum] at small
      have due : isDueIn ((seed, place) :: rest) now (seed, place) = true := by
        rw [isDueIn_first sorted, ← isReady_eq small]
        exact ready
      have places : claim.places = (followers seed (joining seed rest)).map Prod.snd :=
        congrArg Claim.places (claimOf_eq small)
      rw [members_first sorted due, moments_first sorted due, places]
      rfl
  | case3 seed place rest claim unready later ih =>
      rw [sizes_cons, sizeSum] at small
      have early : isDueIn ((seed, place) :: rest) now (seed, place) = false := by
        rw [isDueIn_first sorted, ← isReady_eq small]
        exact Bool.eq_false_iff.mpr unready
      -- What the seed leaves is the queue without its class, and so is what the reference looks at.
      have left := leftBy_of_unready sorted.tail.distinct (Bool.eq_false_iff.mpr unready)
      have fewer : sizeSum (sizes (beside seed rest)) < wordLimit :=
        Nat.lt_of_le_of_lt (sizeSum_sizes_le List.filter_sublist) (by omega)
      rw [left] at ih
      have found : later = ⟨(members (beside seed rest) now).map Prod.snd,
          moments (beside seed rest) now⟩ :=
        (congrArg (choose now) left).trans (ih (sorted.tail.filter _) fewer)
      rw [members_behind sorted early, moments_behind sorted early, found]

end

end Selection

namespace Sample

def samples (id : RequestId) (input : Tensor) : Request :=
  { request ⟨4, 4, 50⟩ id none with inputs := [input] }

/-- A sample that waits for another one of its model, and then three, two and one of a second
model. -/
def crowd : List Request :=
  [ { request ⟨4, 2, 0⟩ 0 none with target := .model { echo ⟨4, 2, 0⟩ with id := 1 } },
    samples 1 ⟨.int8, [3, 1], [1, 2, 3], by decide⟩,
    samples 2 ⟨.int8, [2, 1], [4, 5], by decide⟩,
    samples 3 ⟨.int8, [1, 1], [6], by decide⟩ ]

end Sample

namespace Selection

/-- A look finds the group of the first head that is due, whatever the queue and the moment, as long
as the samples that wait are counted by a word. -/
theorem ofQueue_eq_reference (queue : List Request) (now : Nat)
    (small : sizeSum ((live queue now).map Request.batchSize) < wordLimit) :
    ofQueue queue now = reference queue now := by
  have expired (request : Request) : request.deadline.any (· ≤ now) = request.isExpired now := by
    cases deadline : request.deadline <;> simp [Request.isExpired, deadline]
  have counted : sizes (live queue now).zipIdx = (live queue now).map Request.batchSize := by
    conv => rhs; rw [← List.zipIdx_map_fst 0 (live queue now), List.map_map]
    rfl
  have sorted := sorted_zipIdx (live queue now)
  have chosen : choose now (live queue now).zipIdx = _ := choose_eq sorted (by rwa [counted])
  have taken := filter_places (members_sublist sorted now) sorted.distinct
  unfold live at chosen taken
  unfold reference ofQueue
  simp only [expired, chosen, taken]

/-- Two samples more would be too many for the three in front of them, so these run at once and
without the one that would have made four. -/
theorem runs_three_before_two :
    sizeSum ((live Sample.crowd 0).map Request.batchSize) < wordLimit ∧
      (ofQueue Sample.crowd 0).group.map Request.id = [1] ∧
      (ofQueue Sample.crowd 0).waiting.map Request.id = [0, 2, 3] := by
  have small : sizeSum ((live Sample.crowd 0).map Request.batchSize) < wordLimit := by decide
  rw [ofQueue_eq_reference Sample.crowd 0 small]
  exact ⟨small, by cbv, by cbv⟩

end Selection

end InferenceStore
