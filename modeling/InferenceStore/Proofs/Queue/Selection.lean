import InferenceStore.Proofs.Queue.Joining
import InferenceStore.Queue.Selection

/-
What a look takes out of a queue. `Pick` is the search for a group as a relation: a seed that is
not ready is passed over together with all that it claims, and the first one that is ready takes
its claim along. The claim of a seed is a first part of the later requests that can join it, and
all of them unless the group is full.

From it follow the facts that runs rest on. Group, waiting and expired requests part the queue,
each in order of arrival; a group is one request, or one and others that can join it; requests of
one class are never overtaken; and an idle look stays idle until its wake-up moment.
-/

namespace InferenceStore.Selection

def Distinct (queue : List Placed) : Prop := (queue.map Prod.snd).Nodup

theorem Distinct.tail {first : Placed} {rest : List Placed} (distinct : Distinct (first :: rest)) :
    Distinct rest :=
  (List.nodup_cons.mp distinct).2

theorem Distinct.head {first : Placed} {rest : List Placed} (distinct : Distinct (first :: rest)) :
    ∀ other ∈ rest, first.2 ≠ other.2 := by
  intro other member same
  exact (List.nodup_cons.mp distinct).1 (same ▸ List.mem_map_of_mem member)

theorem Distinct.sublist {part whole : List Placed} (distinct : Distinct whole)
    (within : part.Sublist whole) : Distinct part :=
  (within.map Prod.snd).nodup distinct

theorem Distinct.nodup {queue : List Placed} (distinct : Distinct queue) : queue.Nodup :=
  List.Pairwise.of_map Prod.snd (fun _ _ apart same => apart (congrArg Prod.snd same)) distinct

theorem filter_places {part whole : List Placed} (within : part.Sublist whole)
    (distinct : Distinct whole) :
    (whole.filter fun other => (part.map Prod.snd).contains other.2) = part := by
  induction within with
  | slnil => rfl
  | @cons part whole skipped within ih =>
      have absent : (part.map Prod.snd).contains skipped.2 = false := by
        simp only [List.contains_eq_mem, decide_eq_false_iff_not, List.mem_map, not_exists, not_and]
        intro other member same
        exact distinct.head other (within.subset member) same.symm
      rw [List.filter_cons_of_neg (by rw [absent]; exact Bool.false_ne_true)]
      exact ih distinct.tail
  | @cons_cons part whole kept within ih =>
      have others : whole.filter (fun other => ((kept :: part).map Prod.snd).contains other.2) =
          whole.filter fun other => (part.map Prod.snd).contains other.2 := by
        apply List.filter_congr
        intro other member
        have apart := distinct.head other member
        simp [apart.symm]
      rw [List.filter_cons_of_pos (by simp), others, ih distinct.tail]

/-! ### Requests in order -/

private theorem pair_take {first second : Placed} {queue : List Placed} (distinct : queue.Nodup)
    (ordered : [first, second].Sublist queue) (count : Nat) (member : second ∈ queue.take count) :
    [first, second].Sublist (queue.take count) := by
  rw [← List.take_append_drop count queue] at ordered distinct
  have apart : second ∉ queue.drop count :=
    fun dropped => (List.nodup_append.mp distinct).2.2 second member second dropped rfl
  obtain ⟨front, back, split, inFront, inBack⟩ := List.sublist_append_iff.mp ordered
  match front, split with
  | [], split =>
      simp only [List.nil_append] at split
      exact absurd (inBack.subset (by simp [← split])) apart
  | [_], split =>
      simp only [List.cons_append, List.nil_append, List.cons.injEq] at split
      exact absurd (inBack.subset (by simp [← split.2])) apart
  | _ :: _ :: more, split =>
      simp only [List.cons_append, List.cons.injEq] at split
      obtain ⟨rfl, rfl, rest⟩ := split
      obtain rfl : more = [] := (List.append_eq_nil_iff.mp rest.symm).1
      exact inFront

private theorem pair_filter {first second : Placed} {queue : List Placed} {keeps : Placed → Bool}
    (ordered : [first, second].Sublist queue) (keepsFirst : keeps first = true)
    (keepsSecond : keeps second = true) : [first, second].Sublist (queue.filter keeps) := by
  have kept := ordered.filter keeps
  simpa [List.filter_cons, keepsFirst, keepsSecond] using kept

private theorem second_behind {first second head : Placed} {rest : List Placed}
    (ordered : [first, second].Sublist (head :: rest)) : second ∈ rest := by
  cases ordered with
  | cons _ inRest => exact inRest.subset (by simp)
  | cons_cons _ inRest => exact inRest.subset (by simp)

/-! ### Claims -/

def joining (seed : Request) (rest : List Placed) : List Placed :=
  rest.filter fun other => seed.canJoin other.1

def claimed (seed : Request) (rest : List Placed) : List Placed :=
  rest.filter fun other => (claimOf seed rest).places.contains other.2

theorem claim_places (seed : Request) (total : Nat) (rest : List Placed) :
    ∃ count, (claim seed total rest).places = ((joining seed rest).take count).map Prod.snd ∧
      ((claim seed total rest).isFull = false → (joining seed rest).length ≤ count) := by
  induction rest generalizing total with
  | nil => exact ⟨0, rfl, fun _ => Nat.le_refl _⟩
  | cons next rest ih =>
      obtain ⟨request, place⟩ := next
      by_cases joins : seed.canJoin request = true
      · have front : joining seed ((request, place) :: rest) =
            (request, place) :: joining seed rest := List.filter_cons_of_pos joins
        rw [front]
        simp only [claim, joins, Bool.not_true, Bool.false_eq_true, if_false]
        split
        · exact ⟨0, rfl, fun full => Bool.noConfusion full⟩
        · split
          · exact ⟨1, rfl, fun full => Bool.noConfusion full⟩
          · obtain ⟨count, places, all⟩ := ih (wrapWord (total + request.batchSize))
            refine ⟨count + 1, ?_, fun notFull => Nat.succ_le_succ (all notFull)⟩
            rw [List.take_succ_cons, List.map_cons, places]
      · have passed : joining seed ((request, place) :: rest) = joining seed rest :=
          List.filter_cons_of_neg joins
        simp only [passed, claim, joins, Bool.not_false, if_true]
        exact ih total

/-- A claim is a first part of what can join, and all of it unless the group is full. -/
theorem claimed_eq_take (seed : Request) (rest : List Placed) (distinct : Distinct rest) :
    ∃ count, claimed seed rest = (joining seed rest).take count ∧
      (claimOf seed rest).places = (claimed seed rest).map Prod.snd ∧
      ((claimOf seed rest).isFull = false → (joining seed rest).length ≤ count) := by
  have known : ∃ count,
      (claimOf seed rest).places = ((joining seed rest).take count).map Prod.snd ∧
        ((claimOf seed rest).isFull = false → (joining seed rest).length ≤ count) := by
    unfold claimOf
    split
    · exact ⟨0, rfl, fun full => Bool.noConfusion full⟩
    · exact claim_places seed seed.batchSize rest
  obtain ⟨count, places, all⟩ := known
  have within : ((joining seed rest).take count).Sublist rest :=
    (List.take_sublist _ _).trans List.filter_sublist
  have taken : claimed seed rest = (joining seed rest).take count := by
    unfold claimed
    rw [places]
    exact filter_places within distinct
  exact ⟨count, taken, by rw [places, taken], all⟩

theorem claimed_of_alone {seed : Request} (alone : isAlone seed = true) (rest : List Placed) :
    claimed seed rest = [] := by
  simp [claimed, claimOf, alone]

theorem isFull_of_alone {seed : Request} (alone : isAlone seed = true) (rest : List Placed) :
    (claimOf seed rest).isFull = true := by
  simp [claimOf, alone]

theorem canJoin_of_claimed {seed : Request} {rest : List Placed} (distinct : Distinct rest)
    {other : Placed} (member : other ∈ claimed seed rest) : seed.canJoin other.1 = true := by
  obtain ⟨count, taken, _⟩ := claimed_eq_take seed rest distinct
  rw [taken] at member
  exact (List.mem_filter.mp (List.mem_of_mem_take member)).2

theorem claimed_of_canJoin {seed : Request} {rest : List Placed} (distinct : Distinct rest)
    (notFull : (claimOf seed rest).isFull = false) {other : Placed} (member : other ∈ rest)
    (joins : seed.canJoin other.1 = true) : other ∈ claimed seed rest := by
  obtain ⟨count, taken, _, all⟩ := claimed_eq_take seed rest distinct
  rw [taken, List.take_of_length_le (all notFull)]
  exact List.mem_filter.mpr ⟨member, joins⟩

theorem not_claimed_of_left {seed : Request} {rest : List Placed} {other : Placed}
    (left : other ∈ leftBy (claimOf seed rest) rest) : other ∉ claimed seed rest := by
  intro member
  have free := (List.mem_filter.mp left).2
  have taken := (List.mem_filter.mp member).2
  rw [taken] at free
  cases free

theorem left_of_not_claimed {seed : Request} {rest : List Placed} {other : Placed}
    (member : other ∈ rest) (free : other ∉ claimed seed rest) :
    other ∈ leftBy (claimOf seed rest) rest := by
  refine List.mem_filter.mpr ⟨member, ?_⟩
  cases taken : (claimOf seed rest).places.contains other.2 with
  | false => rfl
  | true => exact absurd (List.mem_filter.mpr ⟨member, taken⟩) free

theorem batches_of_not_alone {seed : Request} (accompanied : isAlone seed = false) :
    seed.policy.isEnabled = true := by
  cases enabled : seed.policy.isEnabled with
  | true => rfl
  | false => simp [isAlone, enabled] at accompanied

theorem batches_of_claimed {seed : Request} {rest : List Placed} {other : Placed}
    (member : other ∈ claimed seed rest) : seed.policy.isEnabled = true := by
  apply batches_of_not_alone
  cases alone : isAlone seed with
  | false => rfl
  | true =>
      rw [claimed_of_alone alone] at member
      cases member

theorem not_full_of_unready {seed : Request} {now : Nat} {claim : Claim}
    (unready : isReady seed now claim = false) : claim.isFull = false := by
  simp only [isReady, Bool.or_eq_false_iff] at unready
  exact unready.1.1.1

theorem batches_of_unready {seed : Request} {now : Nat} {rest : List Placed}
    (unready : isReady seed now (claimOf seed rest) = false) : seed.policy.isEnabled = true := by
  apply batches_of_not_alone
  cases alone : isAlone seed with
  | false => rfl
  | true => exact absurd (not_full_of_unready unready) (by simp [isFull_of_alone alone])

/-! ### Picks -/

/-- The search for a group among unclaimed requests: what is left of them, and what it finds. -/
inductive Pick (now : Nat) : List Placed → List Placed → Prop
  | none : Pick now [] []
  | ready {seed : Request} {place : Nat} {rest : List Placed}
      (ready : isReady seed now (claimOf seed rest) = true) :
      Pick now ((seed, place) :: rest) ((seed, place) :: claimed seed rest)
  | passed {seed : Request} {place : Nat} {rest members : List Placed}
      (unready : isReady seed now (claimOf seed rest) = false)
      (later : Pick now (leftBy (claimOf seed rest) rest) members) :
      Pick now ((seed, place) :: rest) members

theorem exists_pick (now : Nat) (unclaimed : List Placed) (distinct : Distinct unclaimed) :
    ∃ members, Pick now unclaimed members ∧
      (choose now unclaimed).places = members.map Prod.snd := by
  fun_induction choose now unclaimed with
  | case1 => exact ⟨[], .none, rfl⟩
  | case2 seed place rest claim ready =>
      obtain ⟨_, _, places, _⟩ := claimed_eq_take seed rest distinct.tail
      exact ⟨_, .ready ready, by rw [List.map_cons, ← places]⟩
  | case3 seed place rest claim unready later ih =>
      obtain ⟨members, pick, places⟩ := ih (distinct.tail.sublist List.filter_sublist)
      exact ⟨members, .passed (Bool.eq_false_iff.mpr unready) pick, places⟩

/-- Where nothing is found, nothing is before the first of the moments that are noted. -/
theorem choose_idle {now time : Nat} {unclaimed : List Placed}
    (idle : (choose now unclaimed).places = [])
    (early : ∀ moment ∈ (choose now unclaimed).moments, time < moment) :
    (choose time unclaimed).places = [] := by
  fun_induction choose now unclaimed with
  | case1 => rw [choose]
  | case2 => cases idle
  | case3 seed place rest claim unready later ih =>
      have patient : hasWaitedOut seed time = false := by
        unfold hasWaitedOut
        cases patience : patience? seed with
        | none => rfl
        | some moment =>
            have before := early moment (by simp [patience])
            simpa using before
      have stillUnready : ¬ isReady seed time (claimOf seed rest) = true := by
        simp only [isReady, Bool.or_eq_true, not_or] at unready ⊢
        exact ⟨unready.1, by simp [patient]⟩
      rw [choose, if_neg stillUnready]
      exact ih idle fun moment member => early moment (List.mem_append_right _ member)

namespace Pick

variable {now : Nat} {unclaimed members : List Placed}

theorem sublist (pick : Pick now unclaimed members) : members.Sublist unclaimed := by
  induction pick with
  | none => exact List.Sublist.refl []
  | ready _ => exact List.filter_sublist.cons_cons _
  | passed _ _ ih => exact (ih.trans List.filter_sublist).cons _

/-- A group is one request, or a seed that does not run alone and requests that can join it. -/
theorem cohesive (pick : Pick now unclaimed members) (distinct : Distinct unclaimed) :
    members = [] ∨ ∃ seed others, members = seed :: others ∧
      (others ≠ [] → isAlone seed.1 = false) ∧
      ∀ other ∈ others, seed.1.canJoin other.1 = true := by
  induction pick with
  | none => exact Or.inl rfl
  | @ready seed place rest _ =>
      refine Or.inr ⟨(seed, place), claimed seed rest, rfl, ?_, ?_⟩
      · intro accompanied
        exact Bool.eq_false_iff.mpr fun alone => accompanied (claimed_of_alone alone rest)
      · intro other member
        exact canJoin_of_claimed distinct.tail member
  | passed _ _ ih => exact ih (distinct.tail.sublist List.filter_sublist)

/-- A request is not found before an earlier one of its class, nor put in front of it. -/
theorem keeps_order (pick : Pick now unclaimed members) (distinct : Distinct unclaimed)
    (identified : Identified (unclaimed.map Prod.fst)) {first second : Placed}
    (ordered : [first, second].Sublist unclaimed) (related : first.1.SameClass second.1)
    (found : second ∈ members) : [first, second].Sublist members := by
  induction pick with
  | none => cases found
  | @ready seed place rest ready =>
      have behind : second ∈ rest := second_behind ordered
      have inClaim : second ∈ claimed seed rest :=
        (List.mem_cons.mp found).resolve_left fun same =>
          (List.nodup_cons.mp distinct.nodup).1 (same ▸ behind)
      cases ordered with
      | cons _ inRest =>
          -- Whoever can join the second can join the first, and the claim is a first part.
          have known : Identified [seed, second.1] := identified.pair (by simp)
            (List.mem_map_of_mem (List.mem_cons_of_mem _ behind))
          have joins : seed.canJoin first.1 = true :=
            related.symm.joined (batches_of_claimed inClaim) known
              (canJoin_of_claimed distinct.tail inClaim)
          obtain ⟨count, taken, _⟩ := claimed_eq_take seed rest distinct.tail
          rw [taken] at inClaim ⊢
          have together : [first, second].Sublist (joining seed rest) :=
            pair_filter inRest joins (List.mem_filter.mp (List.mem_of_mem_take inClaim)).2
          have apart : (joining seed rest).Nodup := distinct.tail.nodup.filter _
          exact (pair_take apart together count inClaim).cons _
      | cons_cons _ _ => exact (List.singleton_sublist.mpr inClaim).cons_cons _
  | @passed seed place rest members unready later ih =>
      have behind : second ∈ rest := second_behind ordered
      have left : second ∈ leftBy (claimOf seed rest) rest := later.sublist.subset found
      have free : second ∉ claimed seed rest := not_claimed_of_left left
      have passes (joins : seed.canJoin second.1 = true) : False :=
        free (claimed_of_canJoin distinct.tail (not_full_of_unready unready) behind joins)
      cases ordered with
      | cons _ inRest =>
          have firstLeft : first ∈ leftBy (claimOf seed rest) rest := by
            apply left_of_not_claimed (inRest.subset (by simp))
            intro firstClaimed
            have known : Identified [seed, first.1] := identified.pair (by simp)
              (List.mem_map_of_mem (List.mem_cons_of_mem _ (inRest.subset (by simp))))
            exact passes (related.joined (batches_of_unready unready) known
              (canJoin_of_claimed distinct.tail firstClaimed))
          refine ih (distinct.tail.sublist List.filter_sublist) ?_ ?_ found
          · exact identified.subset
              ((List.filter_sublist.cons _).map Prod.fst).subset
          · exact pair_filter inRest (List.mem_filter.mp firstLeft).2 (List.mem_filter.mp left).2
      | cons_cons _ _ =>
          rcases related with joins | ⟨disabled, _⟩
          · exact (passes joins).elim
          · exact absurd (batches_of_unready unready) (by simp [disabled])

end Pick

/-! ### Looks -/

def live (queue : List Request) (now : Nat) : List Request :=
  queue.filter fun request => !request.isExpired now

variable {queue : List Request} {now : Nat}

theorem mem_live {request : Request} :
    request ∈ live queue now ↔ request ∈ queue ∧ request.isExpired now = false := by
  simp [live]

theorem distinct_zipIdx (queue : List Request) : Distinct queue.zipIdx := by
  unfold Distinct
  rw [List.zipIdx_map_snd]
  exact List.nodup_range'

theorem exists_group (queue : List Request) (now : Nat) :
    ∃ members, Pick now (live queue now).zipIdx members ∧
      (choose now (live queue now).zipIdx).places = members.map Prod.snd ∧
      (ofQueue queue now).group = members.map Prod.fst := by
  obtain ⟨members, pick, places⟩ := exists_pick now _ (distinct_zipIdx (live queue now))
  refine ⟨members, pick, places, ?_⟩
  change ((live queue now).zipIdx.filter fun other =>
    (choose now (live queue now).zipIdx).places.contains other.2).map Prod.fst = _
  rw [places, filter_places pick.sublist (distinct_zipIdx _)]

theorem group_sublist (queue : List Request) (now : Nat) :
    ((ofQueue queue now).group).Sublist (live queue now) := by
  have within := (List.filter_sublist (p := fun other : Placed =>
    (choose now (live queue now).zipIdx).places.contains other.2)
      (l := (live queue now).zipIdx)).map Prod.fst
  rwa [List.zipIdx_map_fst] at within

theorem waiting_sublist (queue : List Request) (now : Nat) :
    ((ofQueue queue now).waiting).Sublist (live queue now) := by
  have within := (List.filter_sublist (p := fun other : Placed =>
    !(choose now (live queue now).zipIdx).places.contains other.2)
      (l := (live queue now).zipIdx)).map Prod.fst
  rwa [List.zipIdx_map_fst] at within

theorem not_expired_of_group {request : Request} (member : request ∈ (ofQueue queue now).group) :
    request.isExpired now = false :=
  (mem_live.mp ((group_sublist queue now).subset member)).2

theorem mem_expired {request : Request} : request ∈ (ofQueue queue now).expired ↔
    request ∈ queue ∧ request.isExpired now = true :=
  List.mem_filter

/-- A look loses no request and makes none. -/
theorem parts_perm (queue : List Request) (now : Nat) :
    ((ofQueue queue now).waiting ++ (ofQueue queue now).group ++
      (ofQueue queue now).expired).Perm queue := by
  have taken := ((List.filter_append_perm (fun other : Placed =>
    (choose now (live queue now).zipIdx).places.contains other.2)
      (live queue now).zipIdx).map Prod.fst)
  rw [List.map_append, List.zipIdx_map_fst] at taken
  have stayed := (List.perm_append_comm.trans taken).append_right
    (queue.filter fun request => request.isExpired now)
  exact stayed.trans (List.perm_append_comm.trans (List.filter_append_perm _ queue))

theorem group_cohesive (queue : List Request) (now : Nat) :
    (ofQueue queue now).group = [] ∨ ∃ seed others, (ofQueue queue now).group = seed :: others ∧
      (others ≠ [] → isAlone seed = false) ∧ ∀ other ∈ others, seed.canJoin other = true := by
  obtain ⟨members, pick, _, group⟩ := exists_group queue now
  rw [group]
  rcases pick.cohesive (distinct_zipIdx _) with empty | ⟨seed, others, same, alone, joins⟩
  · exact Or.inl (by rw [empty]; rfl)
  · refine Or.inr ⟨seed.1, others.map Prod.fst, by rw [same]; rfl, ?_, ?_⟩
    · intro accompanied
      exact alone fun nobody => accompanied (by rw [nobody]; rfl)
    · intro other member
      obtain ⟨placed, inOthers, rfl⟩ := List.mem_map.mp member
      exact joins placed inOthers

/-- No look takes a request before an earlier one of its class that has not expired. -/
theorem group_keeps_order (distinct : queue.Nodup) (identified : Identified queue)
    {first second : Request} (ordered : [first, second].Sublist queue)
    (waits : first.isExpired now = false) (related : first.SameClass second)
    (found : second ∈ (ofQueue queue now).group) :
    [first, second].Sublist (ofQueue queue now).group := by
  have stays : second.isExpired now = false := not_expired_of_group found
  obtain ⟨members, pick, _, group⟩ := exists_group queue now
  rw [group] at found ⊢
  have liveOrdered : [first, second].Sublist (live queue now) := by
    have kept := ordered.filter fun request => !request.isExpired now
    simp only [List.filter_cons, waits, stays, Bool.not_false, if_true, List.filter_nil] at kept
    exact kept
  have apart : (live queue now).Nodup := distinct.filter _
  rw [← List.zipIdx_map_fst 0 (live queue now)] at liveOrdered
  obtain ⟨pair, inPlaced, same⟩ := List.sublist_map_iff.mp liveOrdered
  match pair, same with
  | [a, b], same =>
      simp only [List.map_cons, List.map_nil, List.cons.injEq, and_true] at same
      obtain ⟨rfl, rfl⟩ := same
      obtain ⟨c, inMembers, equal⟩ := List.mem_map.mp found
      have samePlace : c = b := by
        have placedB := List.mem_zipIdx_iff_getElem?.mp (inPlaced.subset (by simp : b ∈ [a, b]))
        have placedC := List.mem_zipIdx_iff_getElem?.mp (pick.sublist.subset inMembers)
        have within := (List.getElem?_eq_some_iff.mp placedC).1
        rw [equal, ← placedB] at placedC
        exact Prod.ext equal ((List.getElem?_inj within apart).mp placedC)
      rw [samePlace] at inMembers
      have known : Identified ((live queue now).zipIdx.map Prod.fst) := by
        rw [List.zipIdx_map_fst]
        exact identified.subset List.filter_sublist.subset
      exact (pick.keeps_order (distinct_zipIdx _) known inPlaced related inMembers).map Prod.fst

theorem places_of_idle (idle : (ofQueue queue now).group = []) :
    (choose now (live queue now).zipIdx).places = [] := by
  obtain ⟨members, _, places, group⟩ := exists_group queue now
  have unpicked : members = [] := List.map_eq_nil_iff.mp (group ▸ idle)
  rw [places, unpicked]
  rfl

theorem waiting_of_idle (idle : (ofQueue queue now).group = []) :
    (ofQueue queue now).waiting = live queue now := by
  change ((live queue now).zipIdx.filter fun other =>
    !(choose now (live queue now).zipIdx).places.contains other.2).map Prod.fst = _
  rw [places_of_idle idle, List.filter_eq_self.mpr (by simp), List.zipIdx_map_fst]

theorem live_eq_self (unexpired : ∀ request ∈ queue, request.isExpired now = false) :
    live queue now = queue :=
  List.filter_eq_self.mpr fun request member => by rw [unexpired request member]; rfl

/-- Neither a group nor an expired request, at this moment. -/
def Idle (queue : List Request) (now : Nat) : Prop :=
  (ofQueue queue now).group = [] ∧ (ofQueue queue now).expired = []

theorem Idle.unexpired (idle : Idle queue now) :
    ∀ request ∈ queue, request.isExpired now = false := by
  intro request member
  cases expired : request.isExpired now with
  | false => rfl
  | true =>
      have found := mem_expired.mpr ⟨member, expired⟩
      rw [idle.2] at found
      cases found

theorem Idle.waiting_eq (idle : Idle queue now) : (ofQueue queue now).waiting = queue :=
  (waiting_of_idle idle.1).trans (live_eq_self idle.unexpired)

theorem idle_of_places (places : (choose now queue.zipIdx).places = [])
    (unexpired : ∀ request ∈ queue, request.isExpired now = false) : Idle queue now := by
  constructor
  · change ((live queue now).zipIdx.filter fun other =>
      (choose now (live queue now).zipIdx).places.contains other.2).map Prod.fst = _
    rw [live_eq_self unexpired, places]
    simp
  · exact List.filter_eq_nil_iff.mpr fun request member => by simp [unexpired request member]

/-- Before the moment that an idle look notes, all later looks at what it leaves are idle. -/
theorem idle_before_wakeAt (idle : (ofQueue queue now).group = []) {time : Nat}
    (early : ∀ moment, (ofQueue queue now).wakeAt = some moment → time < moment) :
    Idle (ofQueue queue now).waiting time := by
  have first : ∀ moment ∈ (choose now (live queue now).zipIdx).moments ++
      (ofQueue queue now).waiting.filterMap Request.deadline, time < moment := by
    intro moment member
    cases woken : (ofQueue queue now).wakeAt with
    | none =>
        have empty := List.min?_eq_none_iff.mp woken
        exact absurd member (List.eq_nil_iff_forall_not_mem.mp empty moment)
    | some wakeAt =>
        have least := (List.min?_eq_some_iff.mp woken).2 moment member
        exact Nat.lt_of_lt_of_le (early wakeAt woken) least
  rw [waiting_of_idle idle] at first ⊢
  apply idle_of_places
  · exact choose_idle (places_of_idle idle) fun moment member =>
      first moment (List.mem_append_left _ member)
  · intro request member
    cases deadline : request.deadline with
    | none => simp [Request.isExpired, deadline]
    | some moment =>
        have before := first moment (List.mem_append_right _
          (List.mem_filterMap.mpr ⟨request, member, deadline⟩))
        simpa [Request.isExpired, deadline] using before

end InferenceStore.Selection
