import InferenceStore.Queue.Request

/-
Choosing the next group of a run queue. Requests are looked at in the order of their arrival.
Each one that no earlier request has claimed seeds a group and claims the later requests that
can join it, up to the first that would overflow the batch size. The first group that is ready
is chosen. A group that is not ready stays in the queue and keeps its claim, but does not hold
up the groups of others behind it.

The chosen group is a set of positions in the queue, so group and rest always are a partition
of the requests that have not expired, each in the order of arrival.
-/

namespace InferenceStore

structure Selection where
  group : List Request
  expired : List Request
  waiting : List Request
  /-- The earliest moment at which a waiting request can become ready or expire. -/
  wakeAt : Option Nat

namespace Selection

abbrev Placed := Request × Nat

structure Claim where
  /-- Places of the claimed requests, the seed not among them. -/
  places : List Nat
  /-- Samples of the group, the seed included. -/
  total : Nat
  isFull : Bool
  deriving DecidableEq, Repr

/-- Claims joining requests one after the other. It ends when the batch size is met, or when the
next one would exceed it; smaller ones behind that are not taken. -/
def claim (seed : Request) (total : Nat) : List Placed → Claim
  | [] => ⟨[], total, false⟩
  | (request, place) :: rest =>
      if !seed.canJoin request then claim seed total rest
      else
        let sum := wrapWord (total + request.batchSize)
        if seed.policy.batchSize < sum then ⟨[], total, true⟩
        else if sum = seed.policy.batchSize then ⟨[place], sum, true⟩
        else
          let others := claim seed sum rest
          { others with places := place :: others.places }

/-- A seed that runs alone: without batching, without samples, or with a full batch of its own. -/
def isAlone (seed : Request) : Bool :=
  !seed.policy.isEnabled || seed.batchSize == 0 || decide (seed.policy.batchSize ≤ seed.batchSize)

def claimOf (seed : Request) (rest : List Placed) : Claim :=
  if isAlone seed then ⟨[], seed.batchSize, true⟩ else claim seed seed.batchSize rest

def patience? (seed : Request) : Option Nat :=
  if seed.policy.minBatchTimeout = 0 then none
  else some (seed.enqueuedAt + seed.policy.minBatchTimeout)

def hasWaitedOut (seed : Request) (now : Nat) : Bool :=
  match patience? seed with
  | none => false
  | some moment => decide (moment ≤ now)

def isReady (seed : Request) (now : Nat) (claimed : Claim) : Bool :=
  claimed.isFull || seed.policy.minBatchSize == 0 ||
    decide (seed.policy.minBatchSize ≤ claimed.total) || hasWaitedOut seed now

/-- The places of the first ready group, and the moments at which groups before it would be. -/
structure Choice where
  places : List Nat
  moments : List Nat
  deriving DecidableEq, Repr

def leftBy (claimed : Claim) (rest : List Placed) : List Placed :=
  rest.filter fun other => !claimed.places.contains other.2

theorem length_leftBy_le (claimed : Claim) (rest : List Placed) :
    (leftBy claimed rest).length ≤ rest.length :=
  List.length_filter_le _ rest

def choose (now : Nat) (unclaimed : List Placed) : Choice :=
  match unclaimed with
  | [] => ⟨[], []⟩
  | (seed, place) :: rest =>
      let claimed := claimOf seed rest
      if isReady seed now claimed then ⟨place :: claimed.places, []⟩
      else
        let later := choose now (leftBy claimed rest)
        { later with moments := (patience? seed).toList ++ later.moments }
termination_by unclaimed.length
decreasing_by
  have shorter := length_leftBy_le (claimOf seed rest) rest
  simp only [List.length_cons]
  omega

def ofQueue (queue : List Request) (now : Nat) : Selection :=
  let live := queue.filter fun request => !request.isExpired now
  let placed := live.zipIdx
  let choice := choose now placed
  let isChosen := fun other : Placed => choice.places.contains other.2
  let waiting := (placed.filter fun other => !isChosen other).map Prod.fst
  { group := (placed.filter isChosen).map Prod.fst
    expired := queue.filter fun request => request.isExpired now
    waiting := waiting
    wakeAt := (choice.moments ++ waiting.filterMap Request.deadline).min? }

end Selection

end InferenceStore
