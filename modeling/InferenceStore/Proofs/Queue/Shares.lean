import InferenceStore.Proofs.Queue.Custody
import InferenceStore.Proofs.Queue.Merging
import InferenceStore.Proofs.Tensor.Rows

/-
Every member gets its own rows. The outputs of a group's run are stacks of the members' samples, in
the order of the group, so the rows of a member are those behind the rows of the members before it.
If the run fails, or an output has another number of rows than the group has samples, nobody gets
rows, and all members get the same error. Nothing here asks what was run: it holds of any result.
-/

namespace InferenceStore

namespace Group

/-- Whether an output can be handed out among members that have this many samples together. -/
def Divides (total : Nat) (output : Tensor) : Prop := 0 < output.rank ∧ output.batchSize = total

instance (total : Nat) (output : Tensor) : Decidable (Divides total output) :=
  inferInstanceAs (Decidable (_ ∧ _))

/-- What a member of a group gets out of the result of its run, when the group has `total` samples
and the member `count` of them, those from `start` on. -/
inductive Share (total start count : Nat) : Outcome (List Tensor) → Outcome (List Tensor) → Prop
  | failed (cause : Error) : Share total start count (.error cause) (.error cause)
  | misshapen {outputs : List Tensor} (amiss : ∃ output ∈ outputs, ¬ Divides total output) :
      Share total start count (.ok outputs) (.error (.backend .batchSize))
  | rows {outputs pieces : List Tensor} (divide : ∀ output ∈ outputs, Divides total output)
      (own : List.Forall₂ (Tensor.IsRows · start count ·) outputs pieces) :
      Share total start count (.ok outputs) (.ok pieces)

variable {sizes : List Nat} {output : Tensor} {outputs : List Tensor}

/-! ### Pieces -/

/-- An output cut into one piece for each member. -/
def IsCut (sizes : List Nat) (output : Tensor) (pieces : List Tensor) : Prop :=
  IsStack (output.shape.drop 1) output pieces ∧ pieces.map Tensor.batchSize = sizes

theorem lengths_of_cuts {cuts : List (List Tensor)}
    (each : List.Forall₂ (IsCut sizes) outputs cuts) :
    ∀ pieces ∈ cuts, pieces.length = sizes.length := by
  induction each with
  | nil => exact nofun
  | cons cut _ ih =>
      refine List.forall_mem_cons.mpr ⟨?_, ih⟩
      rw [← cut.2, List.length_map]

theorem exists_cut (divides : Divides (sizeSum sizes) output) :
    ∃ pieces, output.split sizes = .ok pieces ∧ IsCut sizes output pieces := by
  obtain ⟨pieces, stacked, same⟩ := output.exists_parts sizes divides.1 divides.2.symm
  refine ⟨pieces, ?_, stacked, same⟩
  rw [← same]
  exact stacked.split

theorem split_of_misshapen (small : sizeSum sizes < wordLimit)
    (amiss : ¬ Divides (sizeSum sizes) output) :
    output.split sizes = .error (.backend .batchSize) := by
  refine if_pos ?_
  rw [wordSum, wrapWord_of_lt small]
  unfold Divides at amiss
  omega

theorem exists_cuts (divide : ∀ output ∈ outputs, Divides (sizeSum sizes) output) :
    ∃ cuts, parts sizes (.ok outputs) = .ok cuts ∧ List.Forall₂ (IsCut sizes) outputs cuts := by
  induction outputs with
  | nil => exact ⟨[], rfl, .nil⟩
  | cons output rest ih =>
      obtain ⟨first, others⟩ := List.forall_mem_cons.mp divide
      obtain ⟨pieces, split, cut⟩ := exists_cut first
      obtain ⟨cuts, made, each⟩ := ih others
      refine ⟨pieces :: cuts, ?_, .cons cut each⟩
      rw [parts] at made ⊢
      rw [List.mapM_cons, split, made]
      rfl

theorem parts_of_misshapen (small : sizeSum sizes < wordLimit)
    (amiss : ∃ output ∈ outputs, ¬ Divides (sizeSum sizes) output) :
    parts sizes (.ok outputs) = .error (.backend .batchSize) := by
  induction outputs with
  | nil =>
      obtain ⟨_, member, _⟩ := amiss
      cases member
  | cons output rest ih =>
      rw [parts] at ih ⊢
      rw [List.mapM_cons]
      by_cases first : Divides (sizeSum sizes) output
      · obtain ⟨pieces, split, _⟩ := exists_cut first
        have later : ∃ other ∈ rest, ¬ Divides (sizeSum sizes) other := by
          obtain ⟨other, member, wrong⟩ := amiss
          rcases List.mem_cons.mp member with rfl | inRest
          · exact absurd first wrong
          · exact ⟨other, inRest, wrong⟩
        rw [split, ih later]
        rfl
      · rw [split_of_misshapen small first]
        rfl

theorem pieces_at {cuts : List (List Tensor)} (each : List.Forall₂ (IsCut sizes) outputs cuts)
    {position size : Nat} (placed : sizes[position]? = some size) :
    List.Forall₂ (Tensor.IsRows · (sizeSum (sizes.take position)) size ·) outputs
      (cuts.filterMap fun pieces => pieces[position]?) := by
  induction each with
  | nil => exact .nil
  | @cons output pieces rest others cut _ ih =>
      obtain ⟨stacked, rfl⟩ := cut
      rw [List.getElem?_map] at placed
      obtain ⟨piece, found, rfl⟩ := Option.map_eq_some_iff.mp placed
      have taken : (pieces :: others).filterMap (fun pieces => pieces[position]?) =
          piece :: others.filterMap fun pieces => pieces[position]? :=
        List.filterMap_cons_some found
      rw [taken]
      exact .cons (stacked.isRows_at found) ih

/-! ### Shares -/

variable {group : List Request} {outcome : Outcome (List Tensor)}

theorem results_of_one (alone : group.length = 1) : results group outcome = [outcome] :=
  if_pos alone

/-- In a larger group, the result at the position of a member is its share. -/
theorem exists_share (several : group.length ≠ 1)
    (small : sizeSum (group.map Request.batchSize) < wordLimit) {position : Nat} {request : Request}
    (placed : group[position]? = some request) :
    ∃ share, (results group outcome)[position]? = some share ∧
      Share (sizeSum (group.map Request.batchSize))
        (sizeSum ((group.map Request.batchSize).take position)) request.batchSize
        outcome share := by
  have sized : (group.map Request.batchSize)[position]? = some request.batchSize := by
    rw [List.getElem?_map, placed]
    rfl
  cases outcome with
  | error cause =>
      refine ⟨.error cause, ?_, .failed cause⟩
      rw [results_of_error several, List.getElem?_map, placed]
      rfl
  | ok outputs =>
      by_cases divide : ∀ output ∈ outputs, Divides (sizeSum (group.map Request.batchSize)) output
      · obtain ⟨cuts, made, each⟩ := exists_cuts divide
        have lengths := lengths_of_cuts each
        rw [List.length_map] at lengths
        have within := (List.getElem?_eq_some_iff.mp placed).1
        refine ⟨.ok (cuts.filterMap fun pieces => pieces[position]?), ?_,
          .rows divide (pieces_at each sized)⟩
        rw [results_of_parts several made lengths, List.getElem?_map, List.getElem?_range within]
        rfl
      · have amiss : ∃ output ∈ outputs,
            ¬ Divides (sizeSum (group.map Request.batchSize)) output := by
          simpa using divide
        have failed := parts_of_misshapen small amiss
        refine ⟨.error (.backend .batchSize), ?_, .misshapen amiss⟩
        rw [results_of_failure several failed, List.getElem?_map, placed]
        rfl

end Group

/-! ### Delivery -/

namespace Dispatcher

/-- Delivering the result of a run completes every member of its group once and nobody else. A
request that ran alone gets the result as it is, and a member of a larger group its share. -/
theorem delivers_own_rows (dispatcher : Dispatcher) (group : List Request)
    (outcome : Outcome (List Tensor)) (distinct : (group.map Request.id).Nodup) :
    (Error.backend .batchSize).message = "ERR Model did not generate the expected batch size" ∧
      ∃ shares : List (Outcome (List Tensor)), shares.length = group.length ∧
        (dispatcher.deliver group outcome).results = settle dispatcher.results
          ((group.zip shares).map fun share => (share.1, .returned share.2)) ∧
        (∀ id ∉ group.map Request.id,
          (dispatcher.deliver group outcome).result? id = dispatcher.result? id) ∧
        ∀ position request, group[position]? = some request →
          ∃ share, shares[position]? = some share ∧
            (dispatcher.deliver group outcome).result? request.id = some share ∧
            (group.length = 1 → share = outcome) ∧
            (2 ≤ group.length → sizeSum (group.map Request.batchSize) < wordLimit →
              Group.Share (sizeSum (group.map Request.batchSize))
                (sizeSum ((group.map Request.batchSize).take position)) request.batchSize
                outcome share) := by
  have lengths := RunQueue.length_results group outcome
  have settled : (dispatcher.deliver group outcome).results = settle dispatcher.results
      ((group.zip (Group.results group outcome)).map fun share =>
        (share.1, .returned share.2)) := by
    rw [deliver_outcome]
  have completed : (((group.zip (Group.results group outcome)).map fun share =>
      (share.1, Ending.returned share.2)).map fun ending => ending.1.id) =
        group.map Request.id := by
    have members := congrArg (List.map Request.id) (RunQueue.zip_results group outcome)
    rw [List.map_map] at members ⊢
    exact members
  refine ⟨rfl, Group.results group outcome, lengths, settled, ?_, ?_⟩
  · intro id absent
    rw [result?, settled]
    exact get?_settle_of_absent (completed ▸ absent) _
  · intro position request placed
    have within := (List.getElem?_eq_some_iff.mp placed).1
    have answered := List.getElem?_eq_getElem (lengths.symm ▸ within)
    refine ⟨_, answered, ?_, ?_, ?_⟩
    · rw [result?, settled]
      refine get?_settle_of_mem (completed ▸ distinct) (List.mem_map.mpr ⟨(request, _), ?_, rfl⟩) _
      exact List.mem_iff_getElem?.mpr
        ⟨position, List.getElem?_zip_eq_some.mpr ⟨placed, answered⟩⟩
    · intro alone
      simp only [Group.results_of_one alone, List.getElem_singleton]
    · intro several small
      obtain ⟨share, found, own⟩ : ∃ share, (Group.results group outcome)[position]? = some share ∧
          _ := Group.exists_share (by omega) small placed
      cases answered.symm.trans found
      exact own

end Dispatcher

namespace Sample

def trio : List Request :=
  [ request ⟨4, 4, 0⟩ 0 none,
    { request ⟨4, 4, 0⟩ 1 none with inputs := [⟨.int8, [2, 1], [1, 2], by decide⟩] },
    request ⟨4, 4, 0⟩ 2 none ]

def columns : List Tensor :=
  [ ⟨.int8, [4], [1, 2, 3, 4], by decide⟩,
    ⟨.string, [4], [97, 0, 98, 99, 0, 0, 100, 0], by decide⟩ ]

end Sample

/-- The second of three members gets the two rows in the middle. -/
theorem Dispatcher.middle_rows_of_three :
    (Sample.trio.map Request.id).Nodup ∧
      sizeSum (Sample.trio.map Request.batchSize) < wordLimit ∧
      (initial.deliver Sample.trio (.ok Sample.columns)).result? 1 =
        some (.ok [⟨.int8, [2], [2, 3], by decide⟩, ⟨.string, [2], [98, 99, 0, 0], by decide⟩]) ∧
      Group.Share 4 1 2 (.ok Sample.columns)
        (.ok [⟨.int8, [2], [2, 3], by decide⟩, ⟨.string, [2], [98, 99, 0, 0], by decide⟩]) := by
  have distinct : (Sample.trio.map Request.id).Nodup := by decide
  have small : sizeSum (Sample.trio.map Request.batchSize) < wordLimit := by decide
  obtain ⟨_, _, _, _, _, members⟩ :=
    initial.delivers_own_rows Sample.trio (.ok Sample.columns) distinct
  obtain ⟨share, _, given, _, own⟩ := members 1 _ rfl
  have result : (initial.deliver Sample.trio (.ok Sample.columns)).result? 1 =
      some (.ok [⟨.int8, [2], [2, 3], by decide⟩,
        ⟨.string, [2], [98, 99, 0, 0], by decide⟩]) := by
    cbv
  cases given.symm.trans result
  exact ⟨distinct, small, result, own (by decide) small⟩

end InferenceStore
