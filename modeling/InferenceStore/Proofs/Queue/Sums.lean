import InferenceStore.Proofs.Queue.Heads
import InferenceStore.Proofs.Queue.Shares

/-
The sums of a look. A claim adds up samples before it compares them with the batch size, and a stack
and its cuts add them up once more, all in words. None of these sums leaves its word as long as the
requests that can join a seed have together as many samples as a word counts, or as long as the
batch size leaves room for any one of them. Then a group has no more samples than its batch size,
and if so many rows of its inputs would be a tensor, no member fails for the company it has.

Without empty rows this is always so, for every sample takes a byte. Rows that are empty take none,
and there can be more of them than a word counts.
-/

namespace InferenceStore

namespace Selection

/-! ### Sums -/

/-- The sums that a claim forms, as integers. It goes on from what a word keeps of a sum. -/
def claimSums (seed : Request) (taken : Nat) : List Placed → List Nat
  | [] => []
  | (request, _) :: rest =>
      if !seed.canJoin request then claimSums seed taken rest
      else
        (taken + request.batchSize) ::
          if seed.policy.batchSize ≤ wrapWord (taken + request.batchSize) then []
          else claimSums seed (wrapWord (taken + request.batchSize)) rest

/-- A seed that runs alone adds nothing. -/
def sumsOf (seed : Request) (rest : List Placed) : List Nat :=
  if isAlone seed then [] else claimSums seed seed.batchSize rest

def sumsFrom (now : Nat) (unclaimed : List Placed) : List Nat :=
  match unclaimed with
  | [] => []
  | (seed, _) :: rest =>
      let claimed := claimOf seed rest
      if isReady seed now claimed then sumsOf seed rest
      else sumsOf seed rest ++ sumsFrom now (leftBy claimed rest)
termination_by unclaimed.length
decreasing_by
  have shorter := length_leftBy_le (claimOf seed rest) rest
  simp only [List.length_cons]
  omega

/-- The sums that a look at a queue forms. -/
def sums (queue : List Request) (now : Nat) : List Nat := sumsFrom now (live queue now).zipIdx

theorem mem_sumsFrom {now sum : Nat} {unclaimed : List Placed}
    (member : sum ∈ sumsFrom now unclaimed) :
    ∃ seed place rest, ((seed, place) :: rest).Sublist unclaimed ∧ sum ∈ sumsOf seed rest := by
  fun_induction sumsFrom now unclaimed with
  | case1 => cases member
  | case2 seed place rest claimed ready => exact ⟨seed, place, rest, List.Sublist.refl _, member⟩
  | case3 seed place rest claimed unready ih =>
      rcases List.mem_append.mp member with here | later
      · exact ⟨seed, place, rest, List.Sublist.refl _, here⟩
      · obtain ⟨other, spot, behind, within, found⟩ := ih later
        exact ⟨other, spot, behind, (within.trans List.filter_sublist).cons _, found⟩

theorem not_alone_iff {seed : Request} : isAlone seed = false ↔
    seed.policy.isEnabled = true ∧ 0 < seed.batchSize ∧
      seed.batchSize < seed.policy.batchSize := by
  simp [isAlone, Nat.pos_iff_ne_zero, and_assoc]

section Claims

variable {seed : Request} {taken : Nat} {rest : List Placed}

/-- What a claim counts is what it began with, or what a word keeps of one of its sums. -/
theorem total_of_claim (seed : Request) (taken : Nat) (rest : List Placed) :
    (claim seed taken rest).total = taken ∨
      ∃ sum ∈ claimSums seed taken rest, (claim seed taken rest).total = wrapWord sum := by
  induction rest generalizing taken with
  | nil => exact Or.inl rfl
  | cons next rest ih =>
      unfold claim claimSums
      split
      · exact ih taken
      · dsimp only
        by_cases exceeds : seed.policy.batchSize < wrapWord (taken + next.1.batchSize)
        · rw [if_pos exceeds]
          exact Or.inl rfl
        · rw [if_neg exceeds]
          by_cases met : wrapWord (taken + next.1.batchSize) = seed.policy.batchSize
          · rw [if_pos met]
            exact Or.inr ⟨_, List.mem_cons_self .., rfl⟩
          · have unmet := Nat.lt_of_le_of_ne (Nat.le_of_not_lt exceeds) met
            rw [if_neg met, if_neg (Nat.not_le_of_lt unmet)]
            rcases ih (wrapWord (taken + next.1.batchSize)) with begun | ⟨sum, member, kept⟩
            · exact Or.inr ⟨_, List.mem_cons_self .., begun⟩
            · exact Or.inr ⟨sum, List.mem_cons_of_mem _ member, kept⟩

theorem claimSums_lt_of_room (below : taken < seed.policy.batchSize)
    (room : ∀ other ∈ rest, seed.canJoin other.1 = true →
      seed.policy.batchSize + other.1.batchSize ≤ wordLimit) :
    ∀ sum ∈ claimSums seed taken rest, sum < wordLimit := by
  fun_induction claimSums seed taken rest with
  | case1 => exact List.forall_mem_nil _
  | case2 taken request place rest apart ih =>
      exact ih below (List.forall_mem_cons.mp room).2
  | case3 taken request place rest joins ih =>
      obtain ⟨first, others⟩ := List.forall_mem_cons.mp room
      have enough : seed.policy.batchSize + request.batchSize ≤ wordLimit :=
        first (by simpa using joins)
      have word : taken + request.batchSize < wordLimit := by omega
      rw [wrapWord_of_lt word] at ih ⊢
      refine List.forall_mem_cons.mpr ⟨word, ?_⟩
      split
      · exact List.forall_mem_nil _
      · rename_i onward
        exact ih (Nat.lt_of_not_le onward) others

theorem claimSums_lt_of_small (small : taken + sizeSum (sizes (joining seed rest)) < wordLimit) :
    ∀ sum ∈ claimSums seed taken rest, sum < wordLimit := by
  fun_induction claimSums seed taken rest with
  | case1 => exact List.forall_mem_nil _
  | case2 taken request place rest apart ih =>
      have passed : joining seed ((request, place) :: rest) = joining seed rest :=
        List.filter_cons_of_neg (by simpa using apart)
      exact ih (passed ▸ small)
  | case3 taken request place rest joins ih =>
      have front : joining seed ((request, place) :: rest) =
          (request, place) :: joining seed rest := List.filter_cons_of_pos (by simpa using joins)
      rw [front, sizes_cons, sizeSum, ← Nat.add_assoc] at small
      have word : taken + request.batchSize < wordLimit :=
        Nat.lt_of_le_of_lt (Nat.le_add_right ..) small
      rw [wrapWord_of_lt word] at ih ⊢
      refine List.forall_mem_cons.mpr ⟨word, ?_⟩
      split
      · exact List.forall_mem_nil _
      · exact ih small

/-- Where no sum wraps around, what is claimed leaves the batch size unexceeded. -/
theorem exists_claimed (below : taken < seed.policy.batchSize)
    (exact : ∀ sum ∈ claimSums seed taken rest, sum < wordLimit) :
    ∃ part, part.Sublist rest ∧ (claim seed taken rest).places = part.map Prod.snd ∧
      taken + sizeSum (sizes part) ≤ seed.policy.batchSize := by
  induction rest generalizing taken with
  | nil => exact ⟨[], List.Sublist.refl [], rfl, Nat.le_of_lt below⟩
  | cons next rest ih =>
      unfold claimSums at exact
      unfold claim
      split
      · rename_i apart
        rw [if_pos apart] at exact
        obtain ⟨part, within, places, fits⟩ := ih below exact
        exact ⟨part, within.cons _, places, fits⟩
      · rename_i joins
        rw [if_neg joins] at exact
        obtain ⟨word, later⟩ := List.forall_mem_cons.mp exact
        dsimp only
        rw [wrapWord_of_lt word] at later ⊢
        by_cases exceeds : seed.policy.batchSize < taken + next.1.batchSize
        · rw [if_pos exceeds]
          exact ⟨[], List.nil_sublist _, rfl, Nat.le_of_lt below⟩
        · have fits := Nat.le_of_not_lt exceeds
          rw [if_neg exceeds]
          by_cases met : taken + next.1.batchSize = seed.policy.batchSize
          · rw [if_pos met]
            refine ⟨[next], List.singleton_sublist.mpr (List.mem_cons_self ..), rfl, ?_⟩
            rwa [sizes_cons, sizeSum, ← Nat.add_assoc]
          · have unmet := Nat.lt_of_le_of_ne fits met
            rw [if_neg (Nat.not_le_of_lt unmet)] at later
            obtain ⟨part, within, places, total⟩ := ih unmet later
            rw [if_neg met]
            refine ⟨next :: part, within.cons_cons _, congrArg (next.2 :: ·) places, ?_⟩
            rwa [sizes_cons, sizeSum, ← Nat.add_assoc]

theorem total_le_of_exact (distinct : Distinct rest) (accompanied : isAlone seed = false)
    (exact : ∀ sum ∈ sumsOf seed rest, sum < wordLimit) :
    seed.batchSize + sizeSum (sizes (claimed seed rest)) ≤ seed.policy.batchSize := by
  rw [sumsOf, accompanied] at exact
  obtain ⟨part, within, places, fits⟩ := exists_claimed (not_alone_iff.mp accompanied).2.2 exact
  have same : claimed seed rest = part := by
    rw [claimed, claimOf, accompanied]
    simp only [Bool.false_eq_true, if_false, places]
    exact filter_places within distinct
  rwa [same]

end Claims

namespace Pick

variable {now : Nat} {unclaimed members : List Placed}

theorem exists_seed (pick : Pick now unclaimed members) :
    members = [] ∨ ∃ seed place rest, ((seed, place) :: rest).Sublist unclaimed ∧
      members = (seed, place) :: claimed seed rest := by
  induction pick with
  | none => exact Or.inl rfl
  | @ready seed place rest _ => exact Or.inr ⟨seed, place, rest, List.Sublist.refl _, rfl⟩
  | passed _ _ ih =>
      rcases ih with empty | ⟨seed, place, rest, within, same⟩
      · exact Or.inl empty
      · exact Or.inr ⟨seed, place, rest, (within.trans List.filter_sublist).cons _, same⟩

end Pick

end Selection

/-! ### Classes -/

theorem Request.canJoin_self {request : Request} (occupied : 0 < request.batchSize) :
    request.canJoin request = true := by
  refine Request.canJoin_iff.mpr ⟨rfl, occupied, occupied, rfl, ?_⟩
  rintro position x y here there
  cases here.symm.trans there
  have rank := (Tensor.shared_of_pos occupied x (List.mem_of_getElem? here)).1
  exact Tensor.stackable_iff.mpr ⟨rfl, rfl, rank, rfl⟩

/-- The requests of a queue that can join a seed, the seed among them. -/
def mates (queue : List Request) (seed : Request) : List Request :=
  queue.filter fun other => seed.canJoin other

def matesTotal (queue : List Request) (seed : Request) : Nat :=
  sizeSum ((mates queue seed).map Request.batchSize)

theorem sublist_mates {queue others : List Request} {seed : Request}
    (within : (seed :: others).Sublist queue) (occupied : 0 < seed.batchSize)
    (joins : ∀ other ∈ others, seed.canJoin other = true) :
    (seed :: others).Sublist (mates queue seed) := by
  have all : ∀ request ∈ seed :: others, seed.canJoin request = true :=
    List.forall_mem_cons.mpr ⟨Request.canJoin_self occupied, joins⟩
  have kept := within.filter fun other => seed.canJoin other
  rwa [List.filter_eq_self.mpr all] at kept

theorem total_le_mates {queue others : List Request} {seed : Request}
    (within : (seed :: others).Sublist queue) (occupied : 0 < seed.batchSize)
    (joins : ∀ other ∈ others, seed.canJoin other = true) :
    sizeSum ((seed :: others).map Request.batchSize) ≤ matesTotal queue seed :=
  sizeSum_sublist ((sublist_mates within occupied joins).map _)

/-- The most samples that a group of the seed can have. -/
def roomFor (queue : List Request) (seed : Request) : Nat :=
  min seed.policy.batchSize (matesTotal queue seed)

/-- Sums over a queue are words, and so many rows as a group can have are a tensor. -/
structure Measured (queue : List Request) : Prop where
  sums : ∀ seed ∈ queue, 0 < seed.batchSize → matesTotal queue seed < wordLimit ∨
    ∀ other ∈ queue, seed.canJoin other = true →
      seed.policy.batchSize + other.batchSize ≤ wordLimit
  shapes : ∀ seed ∈ queue, 0 < seed.batchSize → ∀ tensor ∈ seed.inputs,
    Tensor.shapeFits tensor.dtype (roomFor queue seed :: tensor.shape.drop 1) = true

namespace Selection

variable {queue : List Request} {now : Nat}

theorem sublist_of_live {part : List Placed} (within : part.Sublist (live queue now).zipIdx) :
    (part.map Prod.fst).Sublist queue := by
  have requests := within.map Prod.fst
  rw [List.zipIdx_map_fst] at requests
  exact requests.trans List.filter_sublist

theorem sizes_eq (part : List Placed) :
    sizes part = (part.map Prod.fst).map Request.batchSize := by
  rw [List.map_map]
  rfl

theorem sumsOf_lt (measured : Measured queue) {seed : Request} {place : Nat} {rest : List Placed}
    (within : ((seed, place) :: rest).Sublist (live queue now).zipIdx) :
    ∀ sum ∈ sumsOf seed rest, sum < wordLimit := by
  have waiting := sublist_of_live within
  unfold sumsOf
  split
  · exact List.forall_mem_nil _
  · rename_i accompanied
    obtain ⟨_, occupied, below⟩ := not_alone_iff.mp (Bool.eq_false_iff.mpr accompanied)
    have seeded := waiting.subset (List.mem_cons_self ..)
    rcases measured.sums seed seeded occupied with small | room
    · have joined : (seed :: (joining seed rest).map Prod.fst).Sublist queue :=
        ((List.filter_sublist.map Prod.fst).cons_cons seed).trans waiting
      have joins : ∀ other ∈ (joining seed rest).map Prod.fst, seed.canJoin other = true := by
        intro other member
        obtain ⟨placed, found, rfl⟩ := List.mem_map.mp member
        exact (List.mem_filter.mp found).2
      have bound := total_le_mates joined occupied joins
      rw [List.map_cons, sizeSum, ← sizes_eq] at bound
      exact claimSums_lt_of_small (Nat.lt_of_le_of_lt bound small)
    · refine claimSums_lt_of_room below fun other member joins => room other.1 ?_ joins
      exact waiting.subset (List.mem_cons_of_mem _ (List.mem_map_of_mem member))

theorem sums_lt (measured : Measured queue) : ∀ sum ∈ sums queue now, sum < wordLimit := by
  intro sum member
  obtain ⟨seed, place, rest, within, found⟩ := mem_sumsFrom member
  exact sumsOf_lt measured within sum found

/-- A group of several is no larger than its batch size, nor than all that can join its seed. -/
theorem group_total (measured : Measured queue) {seed : Request} {others : List Request}
    (found : (ofQueue queue now).group = seed :: others) (several : others ≠ []) :
    (seed :: others).Sublist queue ∧ 0 < seed.batchSize ∧
      (∀ other ∈ others, seed.canJoin other = true) ∧
      sizeSum ((seed :: others).map Request.batchSize) ≤ roomFor queue seed := by
  obtain ⟨members, pick, _, group⟩ := exists_group queue now
  have distinct := distinct_zipIdx (live queue now)
  rcases pick.exists_seed with rfl | ⟨first, place, rest, within, rfl⟩
  · rw [found] at group
    cases group
  rw [found, List.map_cons] at group
  obtain ⟨rfl, rfl⟩ := List.cons.inj group
  have accompanied : isAlone seed = false := by
    cases alone : isAlone seed with
    | false => rfl
    | true => exact absurd (by rw [claimed_of_alone alone]; rfl) several
  obtain ⟨_, occupied, _⟩ := not_alone_iff.mp accompanied
  have behind : Distinct rest := (distinct.sublist within).tail
  have joins : ∀ other ∈ (claimed seed rest).map Prod.fst, seed.canJoin other = true := by
    intro other member
    obtain ⟨placed, taken, rfl⟩ := List.mem_map.mp member
    exact canJoin_of_claimed behind taken
  have waiting : (seed :: (claimed seed rest).map Prod.fst).Sublist queue :=
    ((List.filter_sublist.map Prod.fst).cons_cons seed).trans (sublist_of_live within)
  refine ⟨waiting, occupied, joins, Nat.le_min.mpr ⟨?_, total_le_mates waiting occupied joins⟩⟩
  rw [List.map_cons, sizeSum, ← sizes_eq]
  exact total_le_of_exact behind accompanied (sumsOf_lt measured within)

end Selection

/-! ### Groups -/

namespace Group

variable {seed : Request} {group : List Request} {position : Nat}

theorem stackable_column (joins : ∀ request ∈ group, seed.canJoin request = true)
    (within : position < seed.inputs.length) :
    ∀ part ∈ column group position, seed.inputs[position].stackable part = true := by
  intro part member
  obtain ⟨request, inGroup, found⟩ := List.mem_filterMap.mp member
  obtain ⟨_, _, _, _, columns⟩ := Request.canJoin_iff.mp (joins request inGroup)
  exact columns position _ part (List.getElem?_eq_getElem within) found

theorem sizes_column (joins : ∀ request ∈ group, seed.canJoin request = true)
    (within : position < seed.inputs.length) :
    (column group position).map Tensor.batchSize = group.map Request.batchSize := by
  induction group with
  | nil => rfl
  | cons request rest ih =>
      obtain ⟨first, others⟩ := List.forall_mem_cons.mp joins
      obtain ⟨_, _, occupied, count, _⟩ := Request.canJoin_iff.mp first
      have placed := List.getElem?_eq_getElem (count ▸ within)
      have taken : column (request :: rest) position =
          request.inputs[position] :: column rest position := List.filterMap_cons_some placed
      have size := (Tensor.shared_of_pos occupied _ (List.getElem_mem (count ▸ within))).2
      rw [taken, List.map_cons, List.map_cons, ih others, size]
      rfl

theorem exists_inputs_of_shapes {others : List Request} (occupied : 0 < seed.batchSize)
    (joins : ∀ other ∈ others, seed.canJoin other = true) (several : others ≠ [])
    (small : sizeSum ((seed :: others).map Request.batchSize) < wordLimit)
    (shapes : ∀ tensor ∈ seed.inputs, Tensor.shapeFits tensor.dtype
      (sizeSum ((seed :: others).map Request.batchSize) :: tensor.shape.drop 1) = true) :
    ∃ wholes, inputs (seed :: others) = .ok wholes ∧
      Stacked wholes ((seed :: others).map Request.inputs) := by
  have all : ∀ request ∈ seed :: others, seed.canJoin request = true :=
    List.forall_mem_cons.mpr ⟨Request.canJoin_self occupied, joins⟩
  refine exists_inputs_of_columns several ?_ ?_
  · intro request member
    obtain ⟨_, _, size, count, _⟩ := Request.canJoin_iff.mp (all request member)
    exact ⟨size, count.symm⟩
  · intro position within
    have inside := List.getElem_mem within
    have sizes := sizes_column all within
    have parts : column (seed :: others) position =
        seed.inputs[position] :: column others position :=
      List.filterMap_cons_some (List.getElem?_eq_getElem within)
    rw [parts] at sizes ⊢
    obtain ⟨whole, made, isStack⟩ := Tensor.exists_stack_of_shapeFits
      (Tensor.shared_of_pos occupied _ inside).1 (stackable_column joins within)
      (sizes ▸ small) (sizes ▸ shapes _ inside)
    exact ⟨whole, made, _, isStack⟩

/-- A group whose run adds up without loss, and whose members do not fail for the company they
have. -/
structure AddsUp (limit : Nat) (group : List Request) : Prop where
  total : sizeSum (group.map Request.batchSize) ≤ limit
  /-- The sums that stacks and cuts form, up to each of the members. -/
  sums : ∀ count, sizeSum ((group.map Request.batchSize).take count) < wordLimit
  columns : ∀ request ∈ group, ∀ position < request.inputs.length,
    (column group position).map Tensor.batchSize = group.map Request.batchSize
  stacked : ∃ wholes, inputs group = .ok wholes ∧ Stacked wholes (group.map Request.inputs)
  shares : ∀ outcome position request, group[position]? = some request →
    ∃ share, (results group outcome)[position]? = some share ∧
      Share (sizeSum (group.map Request.batchSize))
        (sizeSum ((group.map Request.batchSize).take position)) request.batchSize outcome share
  /-- Runs that take stacks row by row come out as they do alone. -/
  alone : ∀ target count, (∀ request ∈ group, request.target = target) →
    (∀ request ∈ group, request.outputCount = count) →
    (∀ wholes members, Stacked wholes members → Rowwise target.backendRun wholes members) →
    results group (run group (inputs group)) =
      group.map fun request => request.target.invoke request.inputs request.outputCount

theorem addsUp_of_total {others : List Request} {limit : Nat} (occupied : 0 < seed.batchSize)
    (joins : ∀ other ∈ others, seed.canJoin other = true) (several : others ≠ [])
    (total : sizeSum ((seed :: others).map Request.batchSize) ≤ limit)
    (small : sizeSum ((seed :: others).map Request.batchSize) < wordLimit)
    (shapes : ∀ tensor ∈ seed.inputs, Tensor.shapeFits tensor.dtype
      (sizeSum ((seed :: others).map Request.batchSize) :: tensor.shape.drop 1) = true) :
    AddsUp limit (seed :: others) where
  total := total
  sums count := Nat.lt_of_le_of_lt (sizeSum_sublist (List.take_sublist ..)) small
  columns request member position within := by
    have all : ∀ request ∈ seed :: others, seed.canJoin request = true :=
      List.forall_mem_cons.mpr ⟨Request.canJoin_self occupied, joins⟩
    have count := (Request.canJoin_iff.mp (all request member)).2.2.2.1
    exact sizes_column all (count ▸ within)
  stacked := exists_inputs_of_shapes occupied joins several small shapes
  shares outcome position request placed :=
    exists_share (by simpa using several) small placed
  alone target count targets counts rowwise := by
    obtain ⟨wholes, made, stacked⟩ := exists_inputs_of_shapes occupied joins several small shapes
    exact results_of_stacked several made stacked rowwise targets counts

end Group

/-! ### Rows that hold something -/

section Filled

variable {queue : List Request} {seed : Request}

theorem holds_mates (queue : List Request) (occupied : 0 < seed.batchSize) {position : Nat}
    (within : position < seed.inputs.length) :
    Holds seed.inputs[position].dtype
      (matesTotal queue seed * sizeProduct (seed.inputs[position].shape.drop 1))
      ((Group.column (mates queue seed) position).flatMap Tensor.data) := by
  have joins : ∀ request ∈ mates queue seed, seed.canJoin request = true :=
    fun _ member => (List.mem_filter.mp member).2
  have rank := (Tensor.shared_of_pos occupied _ (List.getElem_mem within)).1
  have alike := Tensor.alike_of_stackable rank (Group.stackable_column joins within)
  rw [matesTotal, ← Group.sizes_column joins within]
  exact Tensor.holds_parts (fun part member => (alike part (List.mem_cons_of_mem _ member)).1)
    fun part member => (alike part (List.mem_cons_of_mem _ member)).2

theorem Request.exists_input {request : Request} (occupied : 0 < request.batchSize) :
    ∃ tensor, tensor ∈ request.inputs := by
  cases inputs : request.inputs with
  | nil => simp [Request.batchSize, inputs, Tensor.sharedBatchSize] at occupied
  | cons tensor rest => exact ⟨tensor, List.mem_cons_self ..⟩

theorem le_matesTotal (member : seed ∈ queue) (occupied : 0 < seed.batchSize) :
    seed.batchSize ≤ matesTotal queue seed :=
  total_le_mates (List.singleton_sublist.mpr member) occupied (List.forall_mem_nil _)

/-- Every row takes bytes, so there are no more samples than bytes. -/
theorem measured_of_filled (bytes : sizeSum (queue.map Request.byteLength) < wordLimit)
    (filled : ∀ request ∈ queue, ∀ tensor ∈ request.inputs,
      ∀ dimension ∈ tensor.shape.drop 1, 0 < dimension) : Measured queue := by
  have fits : ∀ seed ∈ queue, 0 < seed.batchSize → ∀ tensor ∈ seed.inputs,
      matesTotal queue seed < wordLimit ∧
        Tensor.shapeFits tensor.dtype (matesTotal queue seed :: tensor.shape.drop 1) = true := by
    intro seed member occupied tensor inside
    obtain ⟨position, within, rfl⟩ := List.getElem_of_mem inside
    have held := holds_mates queue occupied within
    have positive := filled seed member _ inside
    have length : ((Group.column (mates queue seed) position).flatMap Tensor.data).length <
        wordLimit :=
      Nat.lt_of_le_of_lt (Group.column_length_le ..)
        (Nat.lt_of_le_of_lt (sizeSum_sublist (List.filter_sublist.map _)) bytes)
    have count := Nat.lt_of_le_of_lt held.count_le length
    have nonempty := Nat.lt_of_lt_of_le occupied (le_matesTotal member occupied)
    have counted :=
      Shape.elementCount?_of_positive (List.forall_mem_cons.mpr ⟨nonempty, positive⟩) count
    refine ⟨Nat.lt_of_le_of_lt (Nat.le_mul_of_pos_right _ (Shape.sizeProduct_pos positive)) count,
      Tensor.shapeFits_iff.mpr ⟨_, counted, fun width fixed => ?_⟩⟩
    simp only [Holds, fixed] at held
    exact held ▸ length
  refine ⟨fun seed member occupied => Or.inl ?_, fun seed member occupied tensor inside => ?_⟩
  · obtain ⟨tensor, inside⟩ := Request.exists_input occupied
    exact (fits seed member occupied tensor inside).1
  · have every := (fits seed member occupied tensor inside).2
    exact Tensor.shapeFits_of_fewer (Nat.min_le_right ..) every

end Filled

namespace Selection

theorem roomFor_lt {queue : List Request} {seed other : Request}
    (measured : Measured queue) (member : seed ∈ queue) (waits : other ∈ queue)
    (joins : seed.canJoin other = true) : roomFor queue seed < wordLimit := by
  obtain ⟨_, occupied, size, _⟩ := Request.canJoin_iff.mp joins
  rcases measured.sums seed member occupied with small | room
  · exact Nat.lt_of_le_of_lt (Nat.min_le_right ..) small
  · have enough := room other waits joins
    exact Nat.lt_of_le_of_lt (Nat.min_le_left ..) (by omega)

/-- Over a queue that is measured, no sum of a look is too large for a word, and a group of several
has no more samples than its batch size, and no member that fails for the others. A queue is
measured if no row is empty and its buffers together have fewer bytes than a word counts, whatever
the policies are. -/
theorem batches_within_words (queue : List Request) (now : Nat) :
    (Measured queue →
      (∀ sum ∈ sums queue now, sum < wordLimit) ∧
      ∀ seed others, (ofQueue queue now).group = seed :: others → others ≠ [] →
        Group.AddsUp seed.policy.batchSize (seed :: others)) ∧
    (sizeSum (queue.map Request.byteLength) < wordLimit →
      (∀ request ∈ queue, ∀ tensor ∈ request.inputs,
        ∀ dimension ∈ tensor.shape.drop 1, 0 < dimension) → Measured queue) := by
  refine ⟨fun measured => ⟨sums_lt measured, ?_⟩, measured_of_filled⟩
  intro seed others found several
  obtain ⟨within, occupied, joins, total⟩ := group_total measured found several
  have seeded : seed ∈ queue := within.subset (List.mem_cons_self ..)
  obtain ⟨other, member⟩ := List.exists_mem_of_ne_nil others several
  have waits : other ∈ queue := within.subset (List.mem_cons_of_mem _ member)
  have small := roomFor_lt measured seeded waits (joins other member)
  exact Group.addsUp_of_total occupied joins several (Nat.le_trans total (Nat.min_le_left ..))
    (Nat.lt_of_le_of_lt total small)
    fun tensor inside => Tensor.shapeFits_of_fewer total
      (measured.shapes seed seeded occupied tensor inside)

end Selection

namespace Sample

/-- A tensor without bytes has as many rows as it says. -/
def hollow (policy : BatchPolicy) (id : RequestId) (tensor : Tensor) : Request :=
  { request policy id none with inputs := [tensor] }

def oneRow : Tensor := ⟨.int8, [1, 0], [], by decide⟩

def hollowPair : List Request := [hollow ⟨4, 2, 0⟩ 0 oneRow, hollow ⟨4, 2, 0⟩ 1 oneRow]

def filledPair : List Request :=
  [request ⟨0xFFFFFFFFFFFFFFFF, 2, 0⟩ 0 none, request ⟨0xFFFFFFFFFFFFFFFF, 2, 0⟩ 1 none]

theorem measured_hollowPair : Measured hollowPair := by
  have total : ∀ seed ∈ hollowPair, matesTotal hollowPair seed = 2 := by
    simp only [hollowPair, List.forall_mem_cons]
    exact ⟨by cbv, by cbv, List.forall_mem_nil _⟩
  have inputs : ∀ seed ∈ hollowPair, seed.inputs = [oneRow] ∧ seed.policy = ⟨4, 2, 0⟩ := by
    simp only [hollowPair, List.forall_mem_cons]
    exact ⟨⟨rfl, rfl⟩, ⟨rfl, rfl⟩, List.forall_mem_nil _⟩
  refine ⟨fun seed member _ => Or.inl ?_, fun seed member _ tensor inside => ?_⟩
  · rw [total seed member]
    decide
  · obtain ⟨same, policy⟩ := inputs seed member
    rw [same] at inside
    obtain rfl := List.mem_singleton.mp inside
    rw [roomFor, total seed member, policy]
    decide

end Sample

namespace Selection

theorem batches_hollow_and_filled :
    (∃ seed others, (ofQueue Sample.hollowPair 0).group = seed :: others ∧ others ≠ [] ∧
      Group.AddsUp 4 (seed :: others)) ∧
    ∃ seed others, (ofQueue Sample.filledPair 0).group = seed :: others ∧ others ≠ [] ∧
      Group.AddsUp 0xFFFFFFFFFFFFFFFF (seed :: others) := by
  constructor
  · obtain ⟨within, _⟩ := batches_within_words Sample.hollowPair 0
    have group : (ofQueue Sample.hollowPair 0).group = Sample.hollowPair := by cbv
    exact ⟨_, _, group, List.cons_ne_nil _ _,
      (within Sample.measured_hollowPair).2 _ _ group (List.cons_ne_nil _ _)⟩
  · obtain ⟨within, filled⟩ := batches_within_words Sample.filledPair 0
    have group : (ofQueue Sample.filledPair 0).group = Sample.filledPair := by cbv
    have measured : Measured Sample.filledPair := by
      refine filled (by decide) ?_
      simp only [Sample.filledPair, List.forall_mem_cons]
      exact ⟨by decide, by decide, List.forall_mem_nil _⟩
    exact ⟨_, _, group, List.cons_ne_nil _ _,
      (within measured).2 _ _ group (List.cons_ne_nil _ _)⟩

end Selection

namespace Sample

def mostRows : Tensor := ⟨.int8, [0xFFFFFFFFFFFFFFFF, 0], [], by decide⟩

/-- Twice as many of these rows are no tensor: four times their number is no word. -/
def wideRows : Tensor := ⟨.int8, [0x2000000000000000, 4, 0], [], by decide⟩

/-- Two requests for no more than four samples, one of which has all but one of those that a word
counts. -/
def wrapping : List Request := [hollow ⟨4, 0, 0⟩ 0 oneRow, hollow ⟨4, 0, 0⟩ 1 mostRows]

def widening : List Request :=
  [hollow ⟨0x4000000000000000, 0, 0⟩ 0 wideRows, hollow ⟨0x4000000000000000, 0, 0⟩ 1 wideRows]

end Sample

namespace Selection

/-- A look adds up two requests that have together one sample too many for a word, and takes them
for none: far more than the batch size run as one group, and both fail for it. And a group that is
not too large fails because its stack has no shape, although each member alone does not. -/
theorem leaves_words :
    sums Sample.wrapping 0 = [wordLimit] ∧
    (∃ group, (ofQueue Sample.wrapping 0).group = group ∧
      group.map Request.id = [0, 1] ∧
      4 < sizeSum (group.map Request.batchSize) ∧
      Group.results group (Group.run group (Group.inputs group)) =
        [.error (.tensor .rowsOutOfBounds), .error (.tensor .rowsOutOfBounds)]) ∧
    (∃ group, (ofQueue Sample.widening 0).group = group ∧
      group.map Request.id = [0, 1] ∧
      Group.results group (Group.run group (Group.inputs group)) =
        [.error (.tensor .invalidShape), .error (.tensor .invalidShape)]) ∧
    ∀ request ∈ Sample.wrapping ++ Sample.widening,
      request.target.invoke request.inputs request.outputCount = .ok request.inputs := by
  refine ⟨by cbv, ⟨_, rfl, by cbv, by cbv, by cbv⟩, ⟨_, rfl, by cbv, by cbv⟩, ?_⟩
  simp only [Sample.wrapping, Sample.widening, List.cons_append, List.nil_append,
    List.forall_mem_cons]
  exact ⟨rfl, rfl, rfl, rfl, List.forall_mem_nil _⟩

end Selection

end InferenceStore
